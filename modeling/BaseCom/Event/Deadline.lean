import BaseCom.Event.Safety

/-! The deadline of a `Wait`. Beside the object we note for every thread the instant its
last `Wait` should last to, so many milliseconds after the clock at the call. The two
fields of `abstime` always add up to that instant, but nothing is carried from the second
into the first, and a `tv_nsec` of a whole second or more ends the wait at once. -/

namespace BaseCom.Event

open Sync Transition

/-- The instant in nanoseconds. -/
def Timespec.instant (t : Timespec) : ℤ := t.tvSec * 1000000000 + t.tvNsec

/-- The instant `millSec` milliseconds after the clock. -/
def due (clock : ℕ) (millSec : ℤ) : ℤ := clock * 1000 + millSec * 1000000

/-- The microseconds of the clock and the odd milliseconds make less than a second. -/
def NoCarry (clock : ℕ) (millSec : ℤ) : Prop :=
  (clock % 1000000 : ℕ) + millSec % 1000 * 1000 < 1000000

instance (clock : ℕ) (millSec : ℤ) : Decidable (NoCarry clock millSec) :=
  inferInstanceAs (Decidable (_ < _))

namespace Pc

/-- The deadline a thread in `Wait` has computed and may still pass on. -/
def deadline : Pc → Option Timespec
  | .waitLock t | .waitTest t _ | .waitCall t | .asleep t | .woken t _ | .waitRet t _ => some t
  | .idle | .waitUnlock _ | .timeoutUnlock | .returned _ | .setLock | .setAssign
  | .setBroadcast | .setUnlock | .resetLock | .resetAssign | .resetUnlock => none

/-- The timed wait has ended with an error, on which `Wait` returns `EVENT_TIMEOUT`. -/
def TimedOut : Pc → Prop
  | .woken _ rc | .waitRet _ rc => rc ≠ 0
  | .timeoutUnlock => True
  | .idle | .waitLock _ | .waitTest _ _ | .waitCall _ | .asleep _ | .waitUnlock _ | .returned _
  | .setLock | .setAssign | .setBroadcast | .setUnlock | .resetLock | .resetAssign
  | .resetUnlock => False

/-- The deadline in hand is the instant noted, fit for the timed wait, and a timed wait
that ended with an error did so at that instant or later. -/
structure OnTime (clock : ℕ) (x : ℤ) (p : Pc) : Prop where
  exact : ∀ t, p.deadline = some t → t.instant = x ∧ t.Valid
  reached : p.TimedOut → x ≤ clock * 1000

end Pc

section

variable {ι : Type*} [DecidableEq ι]

/-- For each thread the instant its last `Wait` should last to, if it was called with no
negative number of milliseconds. -/
def noteDue (e : CEvent ι) (a : Act ι) (note : ι → Option ℤ) : ι → Option ℤ :=
  match a with
  | .callWait i millSec =>
    Function.update note i (if 0 ≤ millSec then some (due e.clock millSec) else none)
  | .callSet _ | .callReset _ | .next _ | .spurious _ | .expire _ | .tick _ => note

variable (ι) in
/-- The object under any number of threads, with the instants noted. -/
def dated : Lts (CEvent ι × (ι → Option ℤ)) (Act ι) := (cevent ι).noting (fun _ => none) noteDue

/-- Every thread that has an instant to wait for is on time. -/
def Punctual (q : CEvent ι × (ι → Option ℤ)) : Prop :=
  ∀ i x, q.2 i = some x → (q.1.mon.pc i).OnTime q.1.clock x

/-- `Wait` is called with a sum that carries nothing. -/
def CallsWithoutCarry (q : CEvent ι × (ι → Option ℤ)) : Act ι → Prop
  | .callWait _ millSec => 0 ≤ millSec → NoCarry q.1.clock millSec
  | .callSet _ | .callReset _ | .next _ | .spurious _ | .expire _ | .tick _ => True

omit [DecidableEq ι] in
instance (q : CEvent ι × (ι → Option ℤ)) (a : Act ι) : Decidable (CallsWithoutCarry q a) :=
  match a with
  | .callWait _ _ => inferInstanceAs (Decidable (_ → _))
  | .callSet _ | .callReset _ | .next _ | .spurious _ | .expire _ | .tick _ => isTrue trivial

end

/-! ### The arithmetic of `abstime` -/

/-- The fields of the deadline add up. -/
theorem instant_abstime (clock : ℕ) {millSec : ℤ} (h : 0 ≤ millSec) :
    (abstime clock millSec).instant = due clock millSec := by
  simp only [Timespec.instant, abstime, due, Int.tdiv_eq_ediv_of_nonneg h,
    Int.tmod_eq_emod_of_nonneg h]
  omega

/-- They are normalised exactly if nothing was to be carried. -/
theorem valid_abstime_iff (clock : ℕ) {millSec : ℤ} (h : 0 ≤ millSec) :
    (abstime clock millSec).Valid ↔ NoCarry clock millSec := by
  simp only [Timespec.Valid, abstime, NoCarry, Int.tmod_eq_emod_of_nonneg h]
  omega

/-! ### Threads -/

variable {ι : Type*} [DecidableEq ι] {e f : CEvent ι} {note : ι → Option ℤ} {a : Act ι}

namespace Pc

variable {clock : ℕ} {x : ℤ} {p q : Pc}

/-- Off the path of the timed wait nothing is to be shown. -/
theorem onTime_of_done (hd : p.deadline = none) (ht : ¬ p.TimedOut) : p.OnTime clock x := by
  refine ⟨fun t h => ?_, fun h => absurd h ht⟩
  rw [hd] at h
  cases h

/-- On it, the deadline is handed from statement to statement. -/
theorem OnTime.move (h : p.OnTime clock x) (hd : q.deadline = p.deadline)
    (ht : q.TimedOut → p.TimedOut) : q.OnTime clock x :=
  ⟨fun t hq => h.exact t (hd ▸ hq), fun hq => h.reached (ht hq)⟩

/-- A broadcast ends a sleep without an error. -/
theorem OnTime.wake (h : p.OnTime clock x) : p.wake.OnTime clock x := by
  cases p with
  | asleep t => exact h.move rfl fun ht => absurd rfl ht
  | _ => exact h

theorem OnTime.later (h : p.OnTime clock x) (n : ℕ) : p.OnTime (clock + n) x := by
  refine ⟨h.exact, fun ht => ?_⟩
  have hx := h.reached ht
  push_cast
  omega

end Pc

omit [DecidableEq ι] in
theorem Punctual.of_pc (h : Punctual (e, note)) {i : ι} {x : ℤ} {p : Pc} (hx : note i = some x)
    (hp : e.mon.pc i = p) : p.OnTime e.clock x := hp ▸ h i x hx

/-- One thread moves, and the others stay where they are. -/
theorem Punctual.update (h : Punctual (e, note)) {i : ι} {p : Pc}
    (hpc : f.mon.pc = Function.update e.mon.pc i p) (hclock : f.clock = e.clock)
    (hp : ∀ x, note i = some x → p.OnTime e.clock x) : Punctual (f, note) := by
  intro j x hx
  show (f.mon.pc j).OnTime f.clock x
  rw [hpc, hclock]
  rcases eq_or_ne j i with rfl | hj
  · rw [Function.update_self]
    exact hp x hx
  · rw [Function.update_of_ne hj]
    exact h j x hx

/-- A call of `Wait` is on time exactly if nothing was to be carried. -/
theorem Punctual.callWait_iff (h : Punctual (e, note)) (i : ι) (millSec : ℤ) :
    Punctual (e.begin i (.waitLock (abstime e.clock millSec)),
      noteDue e (.callWait i millSec) note) ↔ (0 ≤ millSec → NoCarry e.clock millSec) := by
  constructor
  · intro hp hm
    have hnote : noteDue e (.callWait i millSec) note i = some (due e.clock millSec) := by
      simp only [noteDue, Function.update_self, if_pos hm]
    have hi := hp i _ hnote
    rw [CEvent.begin, Monitor.goto_pc_self] at hi
    exact (valid_abstime_iff e.clock hm).mp (hi.exact _ rfl).2
  · intro hcarry j x hx
    show (Function.update e.mon.pc i _ j).OnTime e.clock x
    rcases eq_or_ne j i with rfl | hj
    · simp only [noteDue, Function.update_self] at hx
      split_ifs at hx with hm
      obtain rfl := Option.some.inj hx
      rw [Function.update_self]
      refine ⟨?_, False.elim⟩
      rintro t ⟨⟩
      exact ⟨instant_abstime e.clock hm, (valid_abstime_iff e.clock hm).mpr (hcarry hm)⟩
    · simp only [noteDue, Function.update_of_ne hj] at hx
      rw [Function.update_of_ne hj]
      exact h j x hx

/-- Of all steps only a call of `Wait` that drops a carry puts a thread off its time. -/
theorem Punctual.step_iff (h : Punctual (e, note)) (hst : CEvent.Step e a f) :
    Punctual (f, noteDue e a note) ↔ CallsWithoutCarry (e, note) a := by
  cases hst with
  | callWait _ => exact h.callWait_iff _ _
  | callSet _ | callReset _ | waitUnlock _ | timeoutUnlock _ | setLock _ _ | setAssign _
  | setUnlock _ | resetLock _ _ | resetAssign _ | resetUnlock _ =>
    exact iff_of_true (h.update rfl rfl fun _ _ => Pc.onTime_of_done rfl id) trivial
  | waitLock hp _ | waitCall hp _ | reacquire hp _ =>
    exact iff_of_true (h.update rfl rfl fun x hx => (h.of_pc hx hp).move rfl id) trivial
  | spurious hp =>
    exact iff_of_true (h.update rfl rfl fun x hx => (h.of_pc hx hp).wake) trivial
  | waitTest hp =>
    refine iff_of_true (h.update rfl rfl fun x hx => ?_) trivial
    unfold Pc.afterTest
    split_ifs
    · exact Pc.onTime_of_done rfl id
    · exact (h.of_pc hx hp).move rfl id
  | waitRefused hp ht =>
    refine iff_of_true (h.update rfl rfl fun x hx => ?_) trivial
    exact absurd ((h.of_pc hx hp).exact _ rfl).2 ht
  | waitRet hp =>
    refine iff_of_true (h.update rfl rfl fun x hx => ?_) trivial
    unfold Pc.afterRet
    split_ifs with hret hzero
    · exact Pc.onTime_of_done rfl id
    · refine ⟨fun t ht => ?_, fun _ => (h.of_pc hx hp).reached hret⟩
      cases ht
    · exact (h.of_pc hx hp).move rfl False.elim
  | expire hp hreach =>
    refine iff_of_true (h.update rfl rfl fun x hx => ?_) trivial
    have hi := h.of_pc hx hp
    refine ⟨hi.exact, fun _ => ?_⟩
    rw [← (hi.exact _ rfl).1]
    exact hreach
  | setBroadcast hp =>
    rename_i i
    refine iff_of_true (fun j x hx => ?_) trivial
    show (Function.update (fun k => (e.mon.pc k).wake) i .setUnlock j).OnTime e.clock x
    rcases eq_or_ne j i with rfl | hj
    · rw [Function.update_self]
      exact Pc.onTime_of_done rfl id
    · rw [Function.update_of_ne hj]
      exact (h j x hx).wake
  | tick => exact iff_of_true (fun j x hx => (h j x hx).later _) trivial

/-- For every clock and every `millSec` that is not negative the deadline denotes exactly
the instant so much later, and it is normalised if and only if the microseconds and the odd
milliseconds make less than a second. In every state of a run every deadline in hand is
exact and normalised, and every timed wait that ended with an error did so at its instant
or later, if and only if every `Wait` was called when nothing was to be carried. -/
theorem deadline_exact_iff {p₀ p : CEvent ι × (ι → Option ℤ)}
    {tr : List ((CEvent ι × (ι → Option ℤ)) × Act ι)} (hi : (dated ι).init p₀)
    (hr : Run (dated ι) p₀ tr p) :
    (∀ clock millSec, 0 ≤ millSec →
      (abstime clock millSec).instant = due clock millSec ∧
        ((abstime clock millSec).Valid ↔ NoCarry clock millSec)) ∧
    (Always (fun q _ => Punctual q) tr ∧ Punctual p ↔ Always CallsWithoutCarry tr) := by
  refine ⟨fun clock _ hm => ⟨instant_abstime clock hm, valid_abstime_iff clock hm⟩, ?_⟩
  have hstart : Punctual p₀ := by
    intro i x hx
    rw [hi.2] at hx
    cases hx
  refine hr.along_iff (fun _ _ _ _ _ => trivial) (fun q a q' _ hq hk => ?_) trivial hstart
  obtain ⟨hst, hnote⟩ := noting_cases hk
  have hiff := Punctual.step_iff hq (CEvent.step_cases hst)
  rw [← hnote] at hiff
  exact hiff

/-- A wait of a second and a half, to its end by the timed wait. -/
def untilDeadline : List (Act Bool) := [
  .callWait false 1500, .next false, .next false, .next false, .tick 1500000, .expire false,
  .next false, .next false]

/-- A wait of a second and a half, begun on a whole second, that lasts until its deadline. -/
theorem deadline_exact_whole_second : ∃ p tr,
    Run (dated Bool) (CEvent.construct 5000000, fun _ => none) tr p ∧
      p.1.mon.pc false = .timeoutUnlock ∧ p.1.clock = 6500000 ∧
      Always (fun q _ => Punctual q) tr ∧ Punctual p := by
  have hall : Always CallsWithoutCarry
      (trace (dated Bool) (CEvent.construct 5000000, fun _ => none) untilDeadline) := by
    unfold Always
    decide +kernel
  obtain ⟨p, hr, hpc, hclock⟩ := exists_run_of_exec (S := dated Bool)
    (CEvent.construct 5000000, fun _ => none) untilDeadline
    (P := fun p => p.1.mon.pc false = .timeoutUnlock ∧ p.1.clock = 6500000) (by decide +kernel)
  have hi : (dated Bool).init (CEvent.construct 5000000, fun _ => none) :=
    ⟨CEvent.initial_construct _, rfl⟩
  exact ⟨p, _, hr, hpc, hclock, (deadline_exact_iff hi hr).2.mpr hall⟩

/-- A wait of 200 ms begun at 0.9 s: the deadline is 0 s and 1.1·10⁹ ns, the timed wait
refuses it, and `Wait` is about to return `EVENT_TIMEOUT` at once. -/
theorem timeout_before_deadline : ¬ ∀ p, Reachable (dated Bool) p → ∀ i x, p.2 i = some x →
    p.1.mon.pc i = .timeoutUnlock → x ≤ p.1.clock * 1000 := by
  intro hall
  obtain ⟨p, hr, hpc, hnote, hclock⟩ := exists_reachable_of_exec (S := dated Bool)
    (s := (CEvent.construct 900000, fun _ => none)) ⟨CEvent.initial_construct _, rfl⟩
    [.callWait false 200, .next false, .next false, .next false, .next false]
    (P := fun p => p.1.mon.pc false = .timeoutUnlock ∧ p.2 false = some 1100000000 ∧
      p.1.clock = 900000) (by decide +kernel)
  have hle := hall p hr false _ hnote hpc
  rw [hclock] at hle
  exact absurd hle (by decide)

end BaseCom.Event
