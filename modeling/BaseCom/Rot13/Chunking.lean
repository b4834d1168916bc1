import BaseCom.Rot13.Server

/-! The server's output does not depend on how the network cuts the stream. What
one delivery does is what the byte-at-a-time reference does on its bytes: below
the high watermark every line in the buffer is short, and a buffer filled to the
watermark without a newline is exactly one line of the limit's length. -/

namespace BaseCom.Rot13

open Streaming

/-- The byte-at-a-time server: a newline, or the `MAX_LINE`-th byte of a pending
line, sends the line out rotated and followed by a newline. -/
def reference : Transducer Bytes UInt8 UInt8 := lineFramer newline maxLine rot13Char

/-- Between deliveries the input buffer is a pending line of the reference. -/
def Pending (bev : Bufferevent) : Prop :=
  (newline ∉ bev.input ∧ bev.input.length < maxLine) ∧ bev.wmReadHigh = maxLine

/-- One `readcb`, on a pending line and new bytes within the watermark. -/
theorem readcb_eq_reference (p q : Bytes) (bev : Bufferevent) (hp : newline ∉ p)
    (hlt : p.length < maxLine) (hlen : p.length + q.length ≤ maxLine) :
    readcb { bev with input := p ++ q } =
      some { bev with input := (reference.run p q).1,
                      output := bev.output ++ (reference.run p q).2 } := by
  induction hn : q.length using Nat.strongRecOn generalizing p q bev with
  | ind n ih =>
    subst hn
    by_cases hq : newline ∈ q
    · -- the first line of the buffer is complete; the rest starts from an empty line
      obtain ⟨line, rest, rfl, hline⟩ := List.eq_append_cons_of_mem hq
      simp only [List.length_append, List.length_cons] at hlen
      have hpl : newline ∉ p ++ line := by simp [hp, hline]
      have hrest := ih rest.length (by simp; omega) [] rest
        { bev with output := bev.output ++ ((p ++ line).map rot13Char ++ [newline]) }
        (by simp) (by decide) (by simp; omega) rfl
      have hcount : (p ++ line).length ≤ intMax := by
        rw [List.length_append]
        simp only [maxLine, intMax] at hlen ⊢
        omega
      rw [← List.append_assoc, readcb_line bev _ rest hpl hcount]
      rw [List.nil_append] at hrest
      rw [hrest, reference, lineFramer_line p line rest hline (by omega)]
      simp only [List.append_assoc]
    · have hpq : newline ∉ p ++ q := by simp [hp, hq]
      rcases Nat.lt_or_ge (p.length + q.length) maxLine with h | h
      · rw [readcb_short hpq (by simpa using h), reference, lineFramer_short p q hq h]
        simp
      · have hne : q ≠ [] := by rintro rfl; simp at h; omega
        rw [readcb_long hpq (by simpa using h), reference,
          lineFramer_full p q hq hne (by omega)]

/-- `readcb` under the watermark implements the reference. -/
theorem deliver_implements :
    Implements reference deliver WithinWatermark Pending fun bev => (bev.input, bev.output) := by
  rintro bev chunk ⟨hin, hwm⟩ ⟨-, hlen⟩
  have hrun := readcb_eq_reference bev.input chunk bev hin.1 hin.2 (hwm ▸ hlen)
  have hpend := lineFramer_pending (f := rot13Char) (by decide) hin chunk
  exact ⟨_, hrun, ⟨hpend, hwm⟩, rfl⟩

theorem doAccept_serve {fd : ℤ} {bev : Bufferevent} (h : doAccept fd = .serve bev) :
    bev = { input := [], output := [], wmReadLow := 0, wmReadHigh := maxLine } := by
  unfold doAccept at h
  split_ifs at h
  exact (AcceptOutcome.serve.inj h).symm

theorem pending_accept {fd : ℤ} {bev : Bufferevent} (h : doAccept fd = .serve bev) :
    Pending bev := by
  rw [doAccept_serve h]
  exact ⟨⟨by simp, by decide⟩, rfl⟩

/-- What an accepted connection has written and kept after any deliveries, all of which
`readcb` gets through. -/
theorem served_eq_reference {fd : ℤ} {bev : Bufferevent} (h : doAccept fd = .serve bev)
    {cs : List Bytes} (hcs : Deliveries bev cs) :
    ∃ b, cs.foldlM deliver bev = some b ∧ b.input = (reference.run [] cs.flatten).1 ∧
      b.output = (reference.run [] cs.flatten).2 := by
  obtain ⟨b, hb, -, hv⟩ := deliver_implements.foldlM (pending_accept h) hcs
  refine ⟨b, hb, ?_⟩
  rw [doAccept_serve h] at hv
  exact Prod.ext_iff.mp hv

/-- Every `readcb` comes to its end, and two ways of cutting one stream leave the same
bytes in both buffers, those of the byte-at-a-time reference. -/
theorem served_chunking_independent {fd : ℤ} {bev : Bufferevent} (h : doAccept fd = .serve bev)
    {stream : Bytes} {cs ds : List Bytes} (hc : cs.flatten = stream) (hd : ds.flatten = stream)
    (hcs : Deliveries bev cs) (hds : Deliveries bev ds) :
    ∃ b b', cs.foldlM deliver bev = some b ∧ ds.foldlM deliver bev = some b' ∧
      b.output = b'.output ∧ b.input = b'.input ∧
      b.output = (reference.run [] stream).2 ∧ b.input = (reference.run [] stream).1 := by
  obtain ⟨b, hb, hci, hco⟩ := served_eq_reference h hcs
  obtain ⟨b', hb', hdi, hdo⟩ := served_eq_reference h hds
  rw [hc] at hci hco
  rw [hd] at hdi hdo
  exact ⟨b, b', hb, hb', hco.trans hdo.symm, hci.trans hdi.symm, hco, hci⟩

/-- A stream no longer than the watermark may be cut in any way. -/
theorem deliveries_of_length_le {bev : Bufferevent} (hp : Pending bev) {cs : List Bytes}
    (hne : ∀ c ∈ cs, c ≠ []) (hlen : bev.input.length + cs.flatten.length ≤ maxLine) :
    Deliveries bev cs := by
  induction cs generalizing bev with
  | nil => trivial
  | cons c cs ih =>
    rw [List.flatten_cons, List.length_append] at hlen
    have hok : WithinWatermark bev c := ⟨hne c (by simp), by have := hp.2; omega⟩
    obtain ⟨b, hb, hp', hview⟩ := deliver_implements bev c hp hok
    have hin : b.input = (reference.run bev.input c).1 := (Prod.ext_iff.mp hview).1
    have hgrow : (reference.run bev.input c).1.length ≤ bev.input.length + c.length :=
      lineFramer_length _ _
    refine ⟨hok, fun b' hb' => ?_⟩
    obtain rfl : b' = b := Option.some.inj (hb'.symm.trans hb)
    refine ih hp' (fun d hd => hne d (by simp [hd])) ?_
    rw [hin]
    omega

/-- Four bytes, cut after the newline and cut before the second letter. -/
theorem served_chunking_independent_two_cuts :
    ∃ b b', [[104, 105, 10], [97]].foldlM deliver ⟨[], [], 0, maxLine⟩ = some b ∧
      [[104], [105, 10, 97]].foldlM deliver ⟨[], [], 0, maxLine⟩ = some b' ∧
      b.output = [117, 118, 10] ∧ b'.output = [117, 118, 10] := by
  have h : doAccept 7 = .serve ⟨[], [], 0, maxLine⟩ := by decide
  have hcs : Deliveries ⟨[], [], 0, maxLine⟩ [[104, 105, 10], [97]] :=
    deliveries_of_length_le (pending_accept h) (by decide) (by decide)
  have hds : Deliveries ⟨[], [], 0, maxLine⟩ [[104], [105, 10, 97]] :=
    deliveries_of_length_le (pending_accept h) (by decide) (by decide)
  obtain ⟨b, b', hb, hb', he, -, ho, -⟩ :=
    @served_chunking_independent 7 _ h [104, 105, 10, 97] _ _ rfl rfl hcs hds
  have hr : (reference.run [] [104, 105, 10, 97]).2 = [117, 118, 10] := by decide
  exact ⟨b, b', hb, hb', ho.trans hr, he.symm.trans (ho.trans hr)⟩

end BaseCom.Rot13
