import BaseCom.Transition.Run
import Mathlib.Algebra.BigOperators.Group.List.Basic
import Mathlib.Algebra.Order.Ring.Nat

/-! The client's `main` around its `send` loop. The loop ends when everything is sent, when
`send` returns 0, and after a thousand rounds, whatever they brought. Only the second of
these exits is taken for a failure; the third goes on to the reply like the first. -/

namespace BaseCom.Client

open Transition

abbrev Bytes := List UInt8

/-- Where `main` is: before the next `send`, past the loop, or back with -1. -/
inductive Stage
  | sending
  | reading
  | returned
  deriving DecidableEq

/-- The variables of the loop, and the bytes the socket has accepted. -/
structure Sender where
  pos : ℕ
  loop : ℕ
  socket : Bytes
  stage : Stage
  deriving DecidableEq

/-- `sprintf(buf, "%016x", 10000000)`. -/
def message : Bytes := "0000000000989680".toList.map Char.toUInt8

namespace Sender

/-- Before the loop. -/
def start : Sender := { pos := 0, loop := 0, socket := [], stage := .sending }

variable (buf : Bytes) (s : Sender)

/-- `while (pos < (int)len && ++loop < 1000)`. -/
def test : Sender :=
  if s.pos < buf.length then
    if s.loop + 1 < 1000 then { s with loop := s.loop + 1 }
    else { s with loop := s.loop + 1, stage := .reading }
  else { s with stage := .reading }

/-- A round of the loop in which `send` returns `sendBytes`. The branch for an error is
empty. -/
def round (sendBytes : ℤ) : Sender :=
  if 0 < sendBytes then
    test buf { s with pos := s.pos + sendBytes.toNat
                      socket := s.socket ++ (buf.drop s.pos).take sendBytes.toNat }
  else if sendBytes < 0 then test buf s
  else { s with stage := .returned }

/-- `send` accepts no more than it is given. -/
def step (sendBytes : ℤ) : Option Sender :=
  if s.stage = .sending ∧ sendBytes ≤ buf.length - s.pos then some (s.round buf sendBytes)
  else none

end Sender

/-- The loop for a message, under any results of `send`. -/
def sending (buf : Bytes) : Lts Sender ℤ where
  init s := s = .start
  step := Sender.step buf

/-- The bytes the results tell to be accepted. -/
def accepted (results : List ℤ) : ℕ := (results.map Int.toNat).sum

/-- The results of a run. -/
def results (tr : List (Sender × ℤ)) : List ℤ := tr.map Prod.snd

/-- Neither is the message accepted nor is there a 0 among a thousand results. -/
def Exhausted (buf : Bytes) (rs : List ℤ) : Prop :=
  rs.length = 1000 ∧ 0 ∉ rs ∧ accepted rs < buf.length

theorem accepted_append_singleton (rs : List ℤ) (r : ℤ) :
    accepted (rs ++ [r]) = accepted rs + r.toNat := by
  simp [accepted]

theorem results_append_singleton (tr : List (Sender × ℤ)) (s : Sender) (r : ℤ) :
    results (tr ++ [(s, r)]) = results tr ++ [r] := by
  simp [results]

namespace Sender

variable {buf : Bytes} {s t : Sender} {rs : List ℤ} {r : ℤ}

/-- What has been accepted is the message up to `pos`. -/
structure Intact (buf : Bytes) (s : Sender) : Prop where
  pos_le : s.pos ≤ buf.length
  socket : s.socket = buf.take s.pos

/-- The loop's variables, told from the results so far. -/
structure Follows (buf : Bytes) (rs : List ℤ) (s : Sender) : Prop where
  intact : s.Intact buf
  pos : s.pos = accepted rs
  sending : s.stage = .sending → 0 ∉ rs ∧ s.loop = rs.length ∧ rs.length < 1000
  reading : s.stage = .reading → 0 ∉ rs ∧ rs.length ≤ 1000 ∧
    (s.pos = buf.length ∨ rs.length = 1000)
  returned : s.stage = .returned → 0 ∈ rs ∧ rs.length ≤ 1000

theorem follows_start : Follows buf [] start where
  intact := ⟨Nat.zero_le _, rfl⟩
  pos := rfl
  sending := by
    intro _
    simp [start]
  reading := by rintro ⟨⟩
  returned := by rintro ⟨⟩

/-- The test after a round without a 0, the round's bytes being accounted for already. -/
theorem follows_test (hi : s.Intact buf) (hp : s.pos = accepted rs) (h0 : 0 ∉ rs)
    (hs : s.stage = .sending) (hl : s.loop + 1 = rs.length) (hle : rs.length ≤ 1000) :
    Follows buf rs (s.test buf) := by
  unfold test
  split_ifs with hlt hcap
  · exact ⟨⟨hi.pos_le, hi.socket⟩, hp, fun _ => ⟨h0, hl, by omega⟩, by simp [hs], by simp [hs]⟩
  · exact ⟨⟨hi.pos_le, hi.socket⟩, hp, by simp, fun _ => ⟨h0, hle, .inr (by omega)⟩, by simp⟩
  · have hall : s.pos = buf.length := Nat.le_antisymm hi.pos_le (by omega)
    exact ⟨⟨hi.pos_le, hi.socket⟩, hp, by simp, fun _ => ⟨h0, hle, .inl hall⟩, by simp⟩

theorem Follows.step (hf : Follows buf rs s) (h : s.step buf r = some t) :
    Follows buf (rs ++ [r]) t := by
  unfold Sender.step at h
  split_ifs at h with hok
  cases h
  obtain ⟨hs, hr⟩ := hok
  obtain ⟨h0, hl, hlt⟩ := hf.sending hs
  have hlen : s.loop + 1 = (rs ++ [r]).length := by rw [List.length_append, hl]; rfl
  have hle : (rs ++ [r]).length ≤ 1000 := by omega
  have hzero : r ≠ 0 → 0 ∉ rs ++ [r] := by
    intro hne hm
    rcases List.mem_append.mp hm with hm | hm
    · exact h0 hm
    · exact hne (List.mem_singleton.mp hm).symm
  unfold round
  split_ifs with hpos hneg
  · -- the bytes sent follow those sent before
    have hfit : s.pos + r.toNat ≤ buf.length := by omega
    refine follows_test ⟨hfit, ?_⟩ ?_ (hzero (by omega)) hs hlen hle
    · simp only
      rw [hf.intact.socket, List.take_add]
    · rw [accepted_append_singleton, ← hf.pos]
  · refine follows_test hf.intact ?_ (hzero (by omega)) hs hlen hle
    have hnone : r.toNat = 0 := by omega
    rw [accepted_append_singleton, hnone, hf.pos]
    rfl
  · have hr0 : r = 0 := by omega
    refine ⟨⟨hf.intact.pos_le, hf.intact.socket⟩, ?_, by simp, by simp, fun _ => ⟨?_, hle⟩⟩
    · rw [accepted_append_singleton, hr0, ← hf.pos]
      rfl
    · exact List.mem_append_right _ (List.mem_singleton.mpr hr0.symm)

/-- The reply is read with the message sent unless a thousand rounds have been used up. -/
theorem Follows.reading_iff (hf : Follows buf rs s) :
    (s.stage = .reading → s.pos = buf.length) ↔ ¬ Exhausted buf rs := by
  unfold Exhausted
  rw [← hf.pos]
  have hle := hf.intact.pos_le
  cases hs : s.stage with
  | sending =>
    obtain ⟨-, -, hlt⟩ := hf.sending hs
    exact iff_of_true (by rintro ⟨⟩) fun hx => by omega
  | reading =>
    obtain ⟨h0, -, hor⟩ := hf.reading hs
    constructor
    · intro hall hx
      have hpos := hall rfl
      omega
    · intro hx _
      by_contra hne
      exact hx ⟨hor.resolve_left hne, h0, by omega⟩
  | returned =>
    obtain ⟨h0, -⟩ := hf.returned hs
    exact iff_of_true (by rintro ⟨⟩) fun hx => hx.2.1 h0

end Sender

/-- Along a run the loop's variables follow from the results. -/
theorem follows_of_run {buf : Bytes} {s : Sender} {tr : List (Sender × ℤ)}
    (hr : Run (sending buf) .start tr s) :
    Always (fun u _ => u.Intact buf) tr ∧ s.Follows buf (results tr) := by
  generalize hs₀ : Sender.start = s₀ at hr
  induction hr with
  | refl =>
    rw [← hs₀]
    exact ⟨always_nil _, Sender.follows_start⟩
  | tail hr hk ih =>
    obtain ⟨halong, hf⟩ := ih
    rw [results_append_singleton, always_tail]
    exact ⟨⟨halong, hf.intact⟩, hf.step hk⟩

/-- In every state of a run the socket has accepted the message up to `pos`; the loop ends
after a thousand rounds at the latest, whatever `send` returns; and it goes on to the reply
only with the whole message sent, and otherwise returns -1, if and only if the thousand
rounds were not used up by results that are no 0 and do not add up to the message. -/
theorem message_sent_iff {buf : Bytes} {s : Sender} {tr : List (Sender × ℤ)}
    (hr : Run (sending buf) .start tr s) :
    (Always (fun u _ => u.Intact buf) tr ∧ s.Intact buf) ∧
      (tr.length ≤ 1000 ∧ (tr.length = 1000 → s.stage ≠ .sending)) ∧
      (s.stage = .sending → ∀ r : ℤ, r ≤ buf.length - s.pos → (s.step buf r).isSome) ∧
      ((s.stage = .reading → s.pos = buf.length) ↔ ¬ Exhausted buf (results tr)) := by
  obtain ⟨halong, hf⟩ := follows_of_run hr
  have hlen : (results tr).length = tr.length := List.length_map ..
  refine ⟨⟨halong, hf.intact⟩, ⟨?_, fun hfull hs => ?_⟩, fun hs r hle => ?_, hf.reading_iff⟩
  · rw [← hlen]
    cases hs : s.stage with
    | sending => exact Nat.le_of_lt (hf.sending hs).2.2
    | reading => exact (hf.reading hs).2.1
    | returned => exact (hf.returned hs).2
  · have hlt := (hf.sending hs).2.2
    omega
  · rw [Sender.step, if_pos ⟨hs, hle⟩]
    rfl

/-- Two partial sends with an error between them. -/
theorem message_sent_in_two_parts : ∃ s tr, Run (sending message) .start tr s ∧
    s.stage = .reading ∧ s.pos = message.length ∧ s.socket = message := by
  obtain ⟨s, hr, hst, hsock⟩ := exists_run_of_exec (S := sending message) .start [10, -1, 6]
    (P := fun s => s.stage = .reading ∧ s.socket = message) (by decide +kernel)
  have hsent := (message_sent_iff hr).2.2.2.mpr fun hx => absurd hx.1 (by decide +kernel)
  exact ⟨s, _, hr, hst, hsent hst, hsock⟩

/-- The state after so many errors. -/
def Sender.failed (n : ℕ) : Sender := { start with loop := n }

theorem step_error {n : ℕ} (h : n + 1 < 1000) :
    (sending message).step (.failed n) (-1) = some (.failed (n + 1)) := by
  have hlen : message.length = 16 := by decide
  simp [sending, Sender.step, Sender.round, Sender.test, Sender.failed, Sender.start, hlen, h]

theorem run_errors (n : ℕ) (h : n < 1000) : ∃ tr, Run (sending message) .start tr (.failed n) := by
  induction n with
  | zero => exact ⟨[], .refl _⟩
  | succ n ih =>
    obtain ⟨tr, hr⟩ := ih (by omega)
    exact ⟨_, hr.tail (step_error h)⟩

/-- After a thousand errors the reply is read with nothing sent. -/
theorem reply_read_unsent : ¬ ∀ s, Reachable (sending message) s →
    s.stage = .reading → s.pos = message.length := by
  intro hall
  obtain ⟨tr, hr⟩ := run_errors 999 (by omega)
  have hlast : (sending message).step (.failed 999) (-1) =
      some { Sender.failed 1000 with stage := .reading } := by decide +kernel
  have hpos := hall _ ⟨_, _, rfl, hr.tail hlast⟩ rfl
  exact absurd hpos (by decide +kernel)

end BaseCom.Client
