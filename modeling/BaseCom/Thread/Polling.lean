import BaseCom.Thread.CThread
import BaseCom.Transition.Loop
import Mathlib.Algebra.Order.Ring.Nat

/-! How long `join(millisTime)` waits. A round of its loop sleeps a tenth of a millisecond and
counts as a whole one, so the time is up after a tenth of what was asked for. The greatest
`millisTime` is never exceeded by the counter, and only the thread's end can end the loop. -/

namespace BaseCom.Thread

open Transition

/-- The counter, and the microseconds slept. -/
structure Waiting where
  k : UInt64
  slept : ℕ
  deriving DecidableEq

/-- Before the first check. -/
def Waiting.start : Waiting := ⟨0, 0⟩

/-- The loop of `join(millisTime)`, with the status at every instant since its beginning. -/
def pollLoop (o : CThread) (status : ℕ → Int32) (millisTime : UInt64) : Loop Waiting where
  test w := { o with threadStatus := status w.slept }.polls millisTime w.k
  body w := { k := w.k + 1, slept := w.slept + 100 }

/-- The loop ends; then the thread has exited or so many milliseconds have been slept; and
no sleep is begun after that many. -/
structure WaitsGivenTime (o : CThread) (status : ℕ → Int32) (millisTime : UInt64) : Prop where
  ends : ∃ n, (pollLoop o status millisTime).EndsAfter .start n
  enough : ∀ n, (pollLoop o status millisTime).EndsAfter .start n →
    status ((pollLoop o status millisTime).body^[n] .start).slept = threadStatusExit ∨
      millisTime.toNat * 1000 ≤ ((pollLoop o status millisTime).body^[n] .start).slept
  noMore : ∀ n, (pollLoop o status millisTime).Starts .start n →
    ((pollLoop o status millisTime).body^[n] .start).slept < millisTime.toNat * 1000

/-- The last check that may come in time. -/
def lastCheck (millisTime : UInt64) : ℕ :=
  if millisTime.toNat = 2 ^ 64 - 1 then 10 * millisTime.toNat else millisTime.toNat + 1

/-- The steps of a polling observer are the rounds of the loop. -/
theorem step_poll_eq {ι : Type*} [DecidableEq ι] {entry : List Stmt} {s : Sys ι} {i : ι}
    {w : Waiting} {millisTime : UInt64} (h : s.observer i = .polling millisTime w.k) :
    let L := pollLoop s.obj (fun _ => s.obj.threadStatus) millisTime
    s.step entry (.poll i) =
      some (s.observe i (if L.test w then .polling millisTime (L.body w).k else .idle)) := by
  simp only [Sys.step, h]
  rfl

variable {o : CThread} {status : ℕ → Int32} {millisTime : UInt64} {n : ℕ}

theorem iterate_body (n : ℕ) :
    (pollLoop o status millisTime).body^[n] .start = ⟨.ofNat n, 100 * n⟩ := by
  induction n with
  | zero => rfl
  | succ n ih =>
    rw [Function.iterate_succ_apply', ih]
    simp only [pollLoop, Waiting.mk.injEq]
    exact ⟨by rw [UInt64.ofNat_add]; rfl, by omega⟩

theorem test_eq_false_iff (o : CThread) (status : ℕ → Int32) (millisTime : UInt64) (n : ℕ) :
    (pollLoop o status millisTime).test ((pollLoop o status millisTime).body^[n] .start) = false ↔
      status (100 * n) = threadStatusExit ∨ millisTime.toNat < n % 2 ^ 64 := by
  rw [iterate_body]
  have hk : ¬ UInt64.ofNat n ≤ millisTime ↔ millisTime.toNat < n % 2 ^ 64 := by
    rw [UInt64.le_iff_toNat_le, UInt64.toNat_ofNat', Nat.not_le]
  rw [← hk]
  simp only [pollLoop, CThread.polls, Bool.and_eq_false_iff, decide_eq_false_iff_not, not_not]

theorem slept_iterate (n : ℕ) :
    ((pollLoop o status millisTime).body^[n] .start).slept = 100 * n := by rw [iterate_body]

/-- Below the greatest value the counter ends the loop, much too early. -/
theorem waitsGivenTime_iff_of_lt (hm : millisTime ≠ 0) (hlt : millisTime.toNat < 2 ^ 64 - 1) :
    WaitsGivenTime o status millisTime ↔
      ∃ n ≤ millisTime.toNat + 1, status (100 * n) = threadStatusExit := by
  have hpos : 0 < millisTime.toNat := Nat.pos_of_ne_zero fun h => hm (UInt64.toNat_inj.mp h)
  have hlast := (test_eq_false_iff o status millisTime (millisTime.toNat + 1)).mpr
    (.inr (by omega))
  constructor
  · intro hw
    obtain ⟨n, hn⟩ := hw.ends
    have hle := hn.le hlast
    have henough := hw.enough n hn
    rw [slept_iterate] at henough
    exact ⟨n, hle, henough.resolve_right (by omega)⟩
  · rintro ⟨x, hx, hexit⟩
    have hfails := (test_eq_false_iff o status millisTime x).mpr (.inl hexit)
    refine ⟨Loop.exists_endsAfter_iff.mpr ⟨x, hfails⟩, fun n hn => ?_, fun n hn => ?_⟩
    · have hle := hn.le hfails
      rw [slept_iterate]
      rcases (test_eq_false_iff o status millisTime n).mp hn.1 with hstatus | hcount
      · exact .inl hstatus
      · -- the counter is beyond `millisTime` at the last check only
        have hlow := Nat.mod_le n (2 ^ 64)
        have hnx : n = x := by omega
        exact .inl (hnx ▸ hexit)
    · have hnx := hn.lt hfails
      rw [slept_iterate]
      omega

/-- The greatest value is never exceeded. -/
theorem waitsGivenTime_iff_of_eq (heq : millisTime.toNat = 2 ^ 64 - 1) :
    WaitsGivenTime o status millisTime ↔
      ∃ n ≤ 10 * millisTime.toNat, status (100 * n) = threadStatusExit := by
  have hfails : ∀ n, (pollLoop o status millisTime).test
      ((pollLoop o status millisTime).body^[n] .start) = false ↔
        status (100 * n) = threadStatusExit := by
    intro n
    rw [test_eq_false_iff, or_iff_left]
    omega
  constructor
  · intro hw
    obtain ⟨n, hn⟩ := hw.ends
    refine ⟨n, ?_, (hfails n).mp hn.1⟩
    rcases Nat.eq_zero_or_pos n with rfl | hpos
    · exact Nat.zero_le _
    · have hbefore := hw.noMore (n - 1) (hn.starts (by omega))
      rw [slept_iterate] at hbefore
      omega
  · rintro ⟨x, hx, hexit⟩
    have hx' := (hfails x).mpr hexit
    refine ⟨Loop.exists_endsAfter_iff.mpr ⟨x, hx'⟩, fun n hn => ?_, fun n hn => ?_⟩
    · rw [slept_iterate]
      exact .inl ((hfails n).mp hn.1)
    · have hnx := hn.lt hx'
      rw [slept_iterate]
      omega

/-- On a started thread `join(millisTime)` polls; and the loop ends, no sooner than the thread
exits or `millisTime` milliseconds have been slept, and sleeps no more after that, if and only
if the thread has exited at one of its checks, up to the one after `millisTime + 1` sleeps of
a tenth of a millisecond, or for the greatest `millisTime` up to the one after as many
milliseconds. -/
theorem join_waits_iff (htid : o.tid ≠ 0) (hm : millisTime ≠ 0) :
    o.joinTimed millisTime = .poll millisTime ∧
      (WaitsGivenTime o status millisTime ↔
        ∃ n ≤ lastCheck millisTime, status (100 * n) = threadStatusExit) := by
  refine ⟨by rw [CThread.joinTimed, if_neg htid, if_neg hm], ?_⟩
  unfold lastCheck
  split_ifs with heq
  · exact waitsGivenTime_iff_of_eq heq
  · have hsize := millisTime.toNat_lt
    exact waitsGivenTime_iff_of_lt hm (by omega)

/-- A thread that exits while it is waited for. -/
theorem join_waits_for_exit :
    WaitsGivenTime ⟨140, 0⟩ (fun t => if 250 ≤ t then threadStatusExit else threadStatusRunning)
      50 :=
  (join_waits_iff (by decide) (by decide)).2.mpr ⟨3, by decide +kernel, by decide⟩

/-- A thread that goes on running is waited for 5.1 milliseconds instead of 50. -/
theorem join_returns_early : ¬ ∀ (o : CThread) (status : ℕ → Int32) (millisTime : UInt64),
    o.tid ≠ 0 → millisTime ≠ 0 → WaitsGivenTime o status millisTime := by
  intro hall
  have hw := hall ⟨140, 0⟩ (fun _ => threadStatusRunning) 50 (by decide) (by decide)
  obtain ⟨n, hn⟩ := hw.ends
  have hlast := (test_eq_false_iff ⟨140, 0⟩ (fun _ => threadStatusRunning) 50 51).mpr
    (.inr (by decide))
  have hle := hn.le hlast
  have henough := hw.enough n hn
  rw [slept_iterate] at henough
  rcases henough with hstatus | hslept
  · exact absurd hstatus (by decide)
  · have h50 : (50 : UInt64).toNat = 50 := rfl
    omega

end BaseCom.Thread
