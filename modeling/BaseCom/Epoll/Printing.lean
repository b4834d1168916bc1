import BaseCom.Epoll.Traffic
import BaseCom.Memory.CString

/-! What the server shows of the bytes it reads. Both threads print their buffer as a
string. The reader clears its 1024 bytes and may fill them all; the accept thread fills at
most 39 of 40 bytes it has not cleared. So the reader's lines are the stream it read exactly
where no read brought a zero byte or filled the buffer, and the accept thread's line depends
on what the memory held before, unless the read brought a zero byte. -/

namespace BaseCom.Epoll

open Transition Memory

/-- Prefixes that together make up the whole are whole themselves. -/
theorem eq_of_flatten_eq {xs ys : List Bytes} (h : List.Forall₂ (fun x y => x <+: y) xs ys)
    (he : xs.flatten = ys.flatten) : xs = ys := by
  have hlen : ∀ {as bs : List Bytes}, List.Forall₂ (fun x y => x <+: y) as bs →
      as.flatten.length ≤ bs.flatten.length := by
    intro as bs hab
    induction hab with
    | nil => exact Nat.le_refl _
    | cons hx _ ih =>
      have hle := hx.length_le
      simp only [List.flatten_cons, List.length_append]
      omega
  induction h with
  | nil => rfl
  | cons hx hxs ih =>
    have hle := hlen hxs
    have htotal := congrArg List.length he
    simp only [List.flatten_cons, List.length_append] at htotal he
    have hle' := hx.length_le
    obtain rfl := hx.eq_of_length (by omega)
    rw [ih (List.append_cancel_left he)]

namespace Piece

/-- `printf("cc=%s\\n",buffer)`, which follows the read whatever it returned. The buffer is
not cleared: `memory` is what was there from its first byte on, behind its 40 bytes too. -/
def ccText (p : Piece) (memory : Bytes) : Option Bytes := cstring 0 (fill (memory.map some) p.bytes)

/-- A line the accept thread may print. -/
def CcLine (p : Piece) (line : Bytes) : Prop :=
  ∃ memory : Bytes, 40 ≤ memory.length ∧ p.ccText memory = some line

/-- `printf("recv:%s\\n", buf)`, after `bzero(buf, 1024)` and a read. -/
def recvText (p : Piece) : Option Bytes :=
  cstring 0 (fill (List.replicate 1024 (some 0)) p.bytes)

/-- The reader prints where `nread > 0`. -/
def Shown (p : Piece) : Prop := p.party = .reader ∧ p.bytes ≠ []

instance (p : Piece) : Decidable p.Shown := inferInstanceAs (Decidable (_ ∧ _))

def recvLine (p : Piece) : Option (Option Bytes) := if p.Shown then some p.recvText else none

/-- A zero byte and a full buffer are the two ways to spoil a line. -/
def Printable (p : Piece) : Prop := 0 ∉ p.bytes ∧ p.bytes.length < 1024

instance (p : Piece) : Decidable p.Printable := inferInstanceAs (Decidable (_ ∧ _))

theorem recvText_eq_iff (p : Piece) : p.recvText = some p.bytes ↔ p.Printable := by
  constructor
  · exact fun h => (prefix_of_cstring_fill h).2 rfl
  · rintro ⟨hmem, hlt⟩
    rw [recvText, cstring_fill_cleared hmem, if_pos hlt]

/-- Without a zero byte any text may follow the bytes read, or none. -/
theorem ccLine_iff (p : Piece) (line : Bytes) :
    p.CcLine line ↔ if 0 ∈ p.bytes then line = p.bytes.takeWhile fun b => b ≠ 0
      else ∃ more, 0 ∉ more ∧ line = p.bytes ++ more := by
  split_ifs with hmem
  · have htext : ∀ memory, p.ccText memory = some (p.bytes.takeWhile fun b => b ≠ 0) :=
      fun memory => cstring_fill_of_mem hmem _
    constructor
    · rintro ⟨memory, -, h⟩
      exact Option.some.inj (h.symm.trans (htext memory))
    · rintro rfl
      exact ⟨List.replicate 40 0, by rw [List.length_replicate], htext _⟩
  · exact exists_cstring_fill_iff hmem 40

/-- The line is determined exactly if it ends within the bytes read. -/
theorem existsUnique_ccLine_iff (p : Piece) : (∃! line, p.CcLine line) ↔ 0 ∈ p.bytes := by
  by_cases hmem : 0 ∈ p.bytes
  · simp only [ccLine_iff, if_pos hmem]
    exact iff_of_true ⟨_, rfl, fun _ h => h⟩ hmem
  · simp only [ccLine_iff, if_neg hmem]
    refine iff_of_false ?_ hmem
    rintro ⟨line, -, huniq⟩
    have hbare := huniq p.bytes ⟨[], List.not_mem_nil, (List.append_nil _).symm⟩
    have hmore := huniq (p.bytes ++ [1]) ⟨[1], by decide, rfl⟩
    simp [← hbare] at hmore

end Piece

namespace Traffic

/-- The reads of a connection that the reader prints. -/
def shown (t : Traffic) (c : Conn) : List Piece :=
  (t.piecesOf c).filter fun p => p.Shown

/-- The lines of the reader about a connection. -/
def recvLines (t : Traffic) (c : Conn) : List (Option Bytes) :=
  (t.piecesOf c).filterMap Piece.recvLine

/-- What the accept thread has read of a connection. -/
def greeting (t : Traffic) (c : Conn) : Bytes :=
  ((t.piecesOf c).filter fun p => p.party = .acceptor).flatMap Piece.bytes

variable {t : Traffic}

theorem recvLines_eq (t : Traffic) (c : Conn) : t.recvLines c = (t.shown c).map Piece.recvText := by
  unfold recvLines shown
  induction t.piecesOf c with
  | nil => rfl
  | cons p ps ih =>
    by_cases hp : p.Shown
    · simp [Piece.recvLine, hp, ih]
    · simp [Piece.recvLine, hp, ih]

theorem flatMap_shown {ps : List Piece} (h : ∀ p ∈ ps, p.party = .reader) :
    (ps.filter fun p => p.Shown).flatMap Piece.bytes = ps.flatMap Piece.bytes := by
  induction ps with
  | nil => rfl
  | cons p ps ih =>
    have hrest := ih fun q hq => h q (List.mem_cons_of_mem _ hq)
    by_cases hp : p.Shown
    · simp [hp, hrest]
    · have hb : p.bytes = [] := by
        by_contra hne
        exact hp ⟨h p List.mem_cons_self, hne⟩
      simp [hp, hb, hrest]

/-- The accept thread's read comes first. -/
theorem Ordered.received_eq (ho : t.Ordered) (c : Conn) :
    t.received c = t.greeting c ++ (t.shown c).flatMap Piece.bytes := by
  have hnone : ∀ ps : List Piece, (∀ p ∈ ps, p.party = .reader) →
      (ps.filter fun p => p.party = .acceptor) = [] := by
    intro ps hps
    apply List.filter_eq_nil_iff.mpr
    intro p hp
    simp [hps p hp]
  have htail := ho.order c
  unfold received Traffic.greeting shown
  cases hl : t.piecesOf c with
  | nil => rfl
  | cons p ps =>
    rw [hl, List.tail_cons] at htail
    cases hp : p.party with
    | acceptor =>
      have hshown : ¬ p.Shown := by simp [Piece.Shown, hp]
      simp [hp, hshown, hnone ps htail, flatMap_shown htail]
    | reader =>
      have hall : ∀ q ∈ p :: ps, q.party = .reader := List.forall_mem_cons.mpr ⟨hp, htail⟩
      rw [hnone _ hall, flatMap_shown hall]
      rfl

/-- What the accept thread reads comes first. -/
theorem Ordered.prefix_received (ho : t.Ordered) {c : Conn} {p : Piece} (hp : p ∈ t.piecesOf c)
    (hparty : p.party = .acceptor) : p.bytes <+: t.received c := by
  have htail := ho.order c
  unfold received
  cases hl : t.piecesOf c with
  | nil =>
    rw [hl] at hp
    cases hp
  | cons q qs =>
    rw [hl] at hp htail
    rcases List.mem_cons.mp hp with rfl | hq
    · exact List.prefix_append _ _
    · have hreader := htail p hq
      rw [hparty] at hreader
      cases hreader

end Traffic

/-- The reader's lines about a connection are all defined and, behind what the accept thread
has taken, show what its client has sent up to what is unread, if and only if no read of the
reader brought a zero byte or filled the buffer. -/
theorem recv_shown_iff {listenfd : Int32} {t : Traffic} (hr : Reachable (traffic listenfd) t)
    (c : Conn) :
    (∃ lines : List Bytes, t.recvLines c = lines.map some ∧
      t.greeting c ++ lines.flatten ++ t.unread c = t.sent c) ↔
    ∀ p ∈ t.piecesOf c, p.party = .reader → p.Printable := by
  obtain ⟨-, hc, ho⟩ := Traffic.sound_of_reachable hr
  have hstream := hc.stream c
  rw [ho.received_eq c] at hstream
  rw [t.recvLines_eq c]
  have hmem : ∀ p, p ∈ t.shown c ↔ p ∈ t.piecesOf c ∧ p.party = .reader ∧ p.bytes ≠ [] := by
    intro p
    rw [Traffic.shown, List.mem_filter, decide_eq_true_eq, Piece.Shown]
  constructor
  · rintro ⟨lines, hlines, hsent⟩
    have hpre : ∀ (ps : List Piece) (ls : List Bytes), ps.map Piece.recvText = ls.map some →
        List.Forall₂ (fun x y => x <+: y) ls (ps.map Piece.bytes) := by
      intro ps
      induction ps with
      | nil =>
        intro ls h
        obtain rfl : ls = [] := by simpa using h.symm
        exact .nil
      | cons p ps ih =>
        intro ls h
        cases ls with
        | nil => cases h
        | cons l ls =>
          simp only [List.map_cons, List.cons.injEq] at h
          exact .cons (prefix_of_cstring_fill h.1).1 (ih ls h.2)
    have hflat : lines.flatten = ((t.shown c).map Piece.bytes).flatten := by
      rw [← hstream] at hsent
      rw [← List.flatMap_def]
      exact List.append_cancel_left (List.append_cancel_right hsent)
    have heq := eq_of_flatten_eq (hpre _ _ hlines) hflat
    intro p hp hparty
    by_cases hne : p.bytes = []
    · refine ⟨?_, ?_⟩
      · rw [hne]
        exact List.not_mem_nil
      · rw [hne]
        exact Nat.zero_lt_succ _
    · rw [heq, List.map_map] at hlines
      have hp' := List.map_inj_left.mp hlines p ((hmem p).mpr ⟨hp, hparty, hne⟩)
      exact p.recvText_eq_iff.mp hp'
  · intro hall
    refine ⟨(t.shown c).map Piece.bytes, ?_, ?_⟩
    · rw [List.map_map]
      apply List.map_congr_left
      intro p hp
      obtain ⟨hmem, hparty, -⟩ := (hmem p).mp hp
      exact p.recvText_eq_iff.mpr (hall p hmem hparty)
    · rw [← List.flatMap_def]
      exact hstream

theorem recv_shown_two_pieces : ∃ t, Reachable (traffic 5) t ∧
    t.piecesOf 0 = [⟨.acceptor, ⟨8, 0⟩, [49, 50, 51]⟩, ⟨.reader, ⟨8, 0⟩, [52, 53]⟩] ∧
    ∃ lines : List Bytes, t.recvLines 0 = lines.map some ∧
      t.greeting 0 ++ lines.flatten ++ t.unread 0 = t.sent 0 := by
  obtain ⟨t, hr, hp⟩ := exists_reachable_of_exec (S := traffic 5) (traffic_init 5) twoPieces
    (P := fun t => t.piecesOf 0 = [⟨.acceptor, ⟨8, 0⟩, [49, 50, 51]⟩, ⟨.reader, ⟨8, 0⟩, [52, 53]⟩])
    (by decide +kernel)
  refine ⟨t, hr, hp, (recv_shown_iff hr 0).mpr ?_⟩
  rw [hp]
  decide

/-- The accept thread's one read of a connection takes the first bytes its client has sent and
stays inside the buffer. What is printed of it is determined if and only if it has a zero byte:
then it is what comes before; otherwise any text may follow the bytes, as it must for a client
that has sent no zero byte. -/
theorem greeting_undetermined {listenfd : Int32} {t : Traffic}
    (hr : Reachable (traffic listenfd) t) (c : Conn) :
    ∀ p ∈ t.piecesOf c, p.party = .acceptor →
      (p.bytes <+: t.sent c ∧ p.bytes.length < 40) ∧
      ((∃! line, p.CcLine line) ↔ 0 ∈ p.bytes) ∧
      (0 ∈ p.bytes → ∀ line, p.CcLine line ↔ line = p.bytes.takeWhile fun b => b ≠ 0) ∧
      (0 ∉ t.sent c → ∀ line, p.CcLine line ↔ ∃ more, 0 ∉ more ∧ line = p.bytes ++ more) := by
  intro p hp hparty
  obtain ⟨-, hc, ho⟩ := Traffic.sound_of_reachable hr
  have hpre : p.bytes <+: t.sent c := by
    rw [← hc.stream c]
    exact (ho.prefix_received hp hparty).trans (List.prefix_append _ _)
  have hshort := hc.short p (List.mem_of_mem_filter hp)
  rw [hparty] at hshort
  refine ⟨⟨hpre, Nat.lt_succ_of_le hshort⟩, p.existsUnique_ccLine_iff, fun hmem line => ?_,
    fun hsent line => ?_⟩
  · rw [p.ccLine_iff, if_pos hmem]
  · rw [p.ccLine_iff, if_neg fun hmem => hsent (hpre.subset hmem)]

/-- The bytes alone may be printed, and so may more. -/
theorem greeting_undetermined_two_pieces : ∃ t, Reachable (traffic 5) t ∧
    ∃ p ∈ t.piecesOf 0, p.party = .acceptor ∧ p.CcLine [49, 50, 51] ∧
      p.CcLine [49, 50, 51, 55] := by
  obtain ⟨t, hr, hp, hsent⟩ := exists_reachable_of_exec (S := traffic 5) (traffic_init 5) twoPieces
    (P := fun t => ⟨.acceptor, ⟨8, 0⟩, [49, 50, 51]⟩ ∈ t.piecesOf 0 ∧ 0 ∉ t.sent 0)
    (by decide +kernel)
  obtain ⟨-, -, -, hany⟩ := greeting_undetermined hr 0 _ hp rfl
  exact ⟨t, hr, _, hp, rfl, (hany hsent _).mpr ⟨[], by decide, rfl⟩,
    (hany hsent _).mpr ⟨[55], by decide, rfl⟩⟩

end BaseCom.Epoll
