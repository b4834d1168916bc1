import BaseCom.Rot13.Reply
import Mathlib.Algebra.Order.BigOperators.Group.List
import Mathlib.Data.Int.Interval
import Mathlib.Algebra.Order.Ring.Nat

/-! How much the server keeps for its clients. The input buffers are bounded all together, by
`MAX_LINE` and `FD_SETSIZE`. An output buffer holds at most a byte in `MAX_LINE` more than was
read of its client, but nothing keeps the server from reading on while the client does not, and
its send buffer is full. -/

namespace BaseCom.Rot13

open Transition

namespace Daemon

variable {d e : Daemon} {s : Socket}

/-- Descriptors of connections lie between 0 and `FD_SETSIZE`, and no two are equal. -/
theorem Sound.length_live_le (h : d.Sound) : d.live.length ≤ 1025 := by
  have hsub : (d.live.map Socket.fd).toFinset ⊆ Finset.Icc 0 fdSetSize := by
    intro fd hfd
    obtain ⟨s, hs, rfl⟩ := List.mem_map.mp (List.mem_toFinset.mp hfd)
    exact Finset.mem_Icc.mpr (h.tracks.range s hs)
  have hcard := Finset.card_le_card hsub
  rw [List.toFinset_card_of_nodup h.tracks.owned.once, List.length_map, Int.card_Icc] at hcard
  exact hcard

theorem Sound.input_lt (h : d.Sound) (hs : s ∈ d.live) :
    (d.bev s.client).bev.input.length < maxLine := (h.accounted hs).2.1.pending.1.2

/-- What was read of a client. -/
def countRead (d : Daemon) (c : Client) : ℕ := (d.sent c).length - (d.unread c).length

/-- One byte more than was read for each line that had to be ended for its length. -/
theorem Sound.reply_length (h : d.Sound) (hs : s ∈ d.live) :
    ∃ full, (d.written s.client).length + (d.bev s.client).bev.output.length +
        (d.bev s.client).bev.input.length = d.countRead s.client + full ∧
      maxLine * full + (d.bev s.client).bev.input.length ≤ d.countRead s.client := by
  obtain ⟨read, hread, -, hlive⟩ := h.reply s.client
  obtain ⟨hout, hin⟩ := hlive s hs rfl
  have hshort : ([] : Bytes).length < maxLine := by decide
  obtain ⟨full, hlen, hle⟩ := @Streaming.lineFramer_growth _ _ newline _ rot13Char [] read hshort
  have hcount : d.countRead s.client = read.length := by
    rw [countRead, ← hread, List.length_append, Nat.add_sub_cancel]
  have hsum := congrArg List.length hout
  rw [List.length_append] at hsum
  rw [List.length_nil, Nat.zero_add] at hlen hle
  rw [hcount, hsum, hin]
  exact ⟨full, hlen, hle⟩

theorem Sound.send (h : d.Sound) (hs : s ∈ d.live) (hp : d.peer s.client = .sending)
    (bytes : Bytes) :
    ∃ e, daemon.step d (.send s.client bytes) = some e ∧ e.live = d.live ∧ e.peer = d.peer ∧
      e.written = d.written ∧ e.bev = d.bev ∧ e.sent s.client = d.sent s.client ++ bytes := by
  have halive : d.alive = true := h.tracks.alive (List.ne_nil_of_mem hs)
  have hold : s.client < d.next := h.tracks.old _ (List.mem_append_left _ (List.mem_map_of_mem hs))
  refine ⟨_, (if_pos halive).trans (if_pos ⟨hold, hp⟩), rfl, rfl, rfl, rfl, ?_⟩
  exact Function.update_self ..

end Daemon

/-- The unfinished lines of all clients together are at most 1025 times one byte less than
`MAX_LINE`, and what the server has for one client, with what it has written, is what it has
read and at most one byte in `MAX_LINE` more. -/
theorem buffers_bounded {d : Daemon} (hr : Reachable daemon d) :
    (d.live.map fun s => (d.bev s.client).bev.input.length).sum ≤ 1025 * 16383 ∧
      ∀ s ∈ d.live, (d.written s.client).length + (d.bev s.client).bev.output.length +
          (d.bev s.client).bev.input.length ≤
        d.countRead s.client + d.countRead s.client / maxLine := by
  have h := Daemon.sound_of_reachable hr
  refine ⟨?_, fun s hs => ?_⟩
  · have hsum := List.sum_le_card_nsmul (d.live.map fun s => (d.bev s.client).bev.input.length)
      16383 ?_
    · rw [List.length_map, Nat.nsmul_eq_mul] at hsum
      exact hsum.trans (Nat.mul_le_mul_right _ h.length_live_le)
    · intro n hn
      obtain ⟨s, hs, rfl⟩ := List.mem_map.mp hn
      exact Nat.le_of_lt_succ (h.input_lt hs)
  · obtain ⟨full, hlen, hle⟩ := h.reply_length hs
    have hfull : full ≤ d.countRead s.client / maxLine := by
      rw [Nat.le_div_iff_mul_le (by decide), Nat.mul_comm]
      omega
    omega

theorem buffers_bounded_two_clients : ∃ d, Reachable daemon d ∧ d.live = [⟨8, 1⟩, ⟨7, 0⟩] ∧
    (d.live.map fun s => (d.bev s.client).bev.input.length).sum ≤ 1025 * 16383 := by
  obtain ⟨d, hr, hl⟩ := exists_reachable_of_exec (S := daemon) initial_listening twoClients
    (P := fun d => d.live = [⟨8, 1⟩, ⟨7, 0⟩]) (by decide +kernel)
  exact ⟨d, hr, hl, (buffers_bounded hr).1⟩

end BaseCom.Rot13
