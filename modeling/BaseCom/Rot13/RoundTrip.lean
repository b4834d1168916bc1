import BaseCom.Rot13.Chunking
import BaseCom.Streaming.RoundTrip

/-! Through the server twice. The character map is an involution that keeps the newline
apart from the other 255 bytes, so a stream of lines comes back as it was unless a line
reaches `MAX_LINE` and is sent out with a newline the client did not write. -/

namespace BaseCom.Rot13

open Streaming

theorem forall_byte {P : UInt8 → Prop} (h : ∀ n : Fin 256, P (UInt8.ofFin n)) (c : UInt8) : P c :=
  h c.toFin

theorem rot13Char_rot13Char (c : UInt8) : rot13Char (rot13Char c) = c :=
  forall_byte (P := fun c => rot13Char (rot13Char c) = c) (by decide +kernel) c

theorem eq_newline_of_rot13Char {c : UInt8} (h : rot13Char c = newline) : c = newline :=
  forall_byte (P := fun c => rot13Char c = newline → c = newline) (by decide +kernel) c h

/-- Any stream can be delivered, if only a byte at a time. -/
theorem deliveries_bytes {bev : Bufferevent} (hp : Pending bev) (stream : Bytes) :
    Deliveries bev (stream.map fun b => [b]) := by
  induction stream generalizing bev with
  | nil => trivial
  | cons b bs ih =>
    have hroom := hp.1.2
    have hok : WithinWatermark bev [b] := by
      refine ⟨List.cons_ne_nil _ _, ?_⟩
      rw [hp.2, List.length_singleton]
      exact hroom
    refine ⟨hok, fun bev' hd => ?_⟩
    obtain ⟨b', hb', hp', -⟩ := deliver_implements bev [b] hp hok
    obtain rfl : bev' = b' := Option.some.inj (hd.symm.trans hb')
    exact ih hp'

/-- The stream is delivered to one connection in the chunks `cs`, and the output of that
connection to another in the chunks `ds`. -/
structure Relayed (bev bev' : Bufferevent) (stream : Bytes) (cs ds : List Bytes) : Prop where
  sent : cs.flatten = stream
  deliveries : Deliveries bev cs
  relayed : ∃ mid, cs.foldlM deliver bev = some mid ∧ ds.flatten = mid.output
  redeliveries : Deliveries bev' ds

/-- An empty stream, or one that ends in a newline, comes back from a second connection, and
as it was if and only if each of its lines is shorter than `MAX_LINE`, however it and the
output of the first connection are cut; and there are such cuts. -/
theorem round_trip_iff {fd fd' : ℤ} {bev bev' : Bufferevent} (h : doAccept fd = .serve bev)
    (h' : doAccept fd' = .serve bev') {stream : Bytes}
    (hs : stream = [] ∨ stream.getLast? = some newline) :
    (∃ cs ds, Relayed bev bev' stream cs ds) ∧
      ∀ cs ds, Relayed bev bev' stream cs ds →
        ∃ back, ds.foldlM deliver bev' = some back ∧ (back.output = stream ↔
          ∀ line ∈ stream.splitOn newline, line.length < maxLine) := by
  have hbytes : ∀ s : Bytes, (s.map fun b => [b]).flatten = s := by
    intro s
    induction s with
    | nil => rfl
    | cons b bs ih => rw [List.map_cons, List.flatten_cons, ih, List.singleton_append]
  refine ⟨?_, fun cs ds hr => ?_⟩
  · have hcs := deliveries_bytes (pending_accept h) stream
    obtain ⟨mid, hmid, -, -⟩ := served_eq_reference h hcs
    exact ⟨_, _, hbytes stream, hcs, ⟨mid, hmid, hbytes _⟩,
      deliveries_bytes (pending_accept h') mid.output⟩
  · obtain ⟨mid, hmid, hds⟩ := hr.relayed
    obtain ⟨mid', hmid', -, hout⟩ := served_eq_reference h hr.deliveries
    obtain rfl : mid = mid' := Option.some.inj (hmid.symm.trans hmid')
    obtain ⟨back, hback, -, hagain⟩ := served_eq_reference h' hr.redeliveries
    refine ⟨back, hback, ?_⟩
    rw [hagain, hds, hout, hr.sent]
    exact lineFramer_twice_iff (by decide) rot13Char_rot13Char
      (fun _ => eq_newline_of_rot13Char) hs

/-- Two letters and a newline come back; a line of `MAX_LINE` letters does not. -/
theorem round_trip_two_letters :
    (∀ cs ds, Relayed ⟨[], [], 0, maxLine⟩ ⟨[], [], 0, maxLine⟩ [104, 105, 10] cs ds →
      ∃ back, ds.foldlM deliver ⟨[], [], 0, maxLine⟩ = some back ∧ back.output = [104, 105, 10]) ∧
    ∃ cs ds back, Relayed ⟨[], [], 0, maxLine⟩ ⟨[], [], 0, maxLine⟩
        (List.replicate maxLine 97 ++ [10]) cs ds ∧
      ds.foldlM deliver ⟨[], [], 0, maxLine⟩ = some back ∧
      back.output ≠ List.replicate maxLine 97 ++ [10] := by
  have h : doAccept 7 = .serve ⟨[], [], 0, maxLine⟩ := by decide
  constructor
  · intro cs ds hr
    obtain ⟨back, hb, hiff⟩ := (round_trip_iff h h (by decide)).2 cs ds hr
    exact ⟨back, hb, hiff.mpr (by decide)⟩
  · have hlong : (List.replicate maxLine (97 : UInt8) ++ [10]).splitOn newline =
        [List.replicate maxLine 97, []] := by
      have hline : newline ∉ List.replicate maxLine (97 : UInt8) := by
        intro hm
        exact absurd (List.eq_of_mem_replicate hm) (by decide)
      exact splitOn_append_cons hline []
    obtain ⟨⟨cs, ds, hr⟩, hall⟩ := round_trip_iff h h
      (show Terminated newline (List.replicate maxLine 97 ++ [10]) from .inr List.getLast?_concat)
    obtain ⟨back, hb, hiff⟩ := hall cs ds hr
    refine ⟨cs, ds, back, hr, hb, fun heq => ?_⟩
    have hshort := hiff.mp heq _ (by rw [hlong]; exact List.mem_cons_self)
    simp at hshort

end BaseCom.Rot13
