import BaseCom.Thread.CThread

/-! What `getState` tells. The entry of a started thread is `thread_proxy_func`, which
calls `run` directly, and only `run1` writes the status. So the status never leaves
`THREAD_STATUS_NEW`, and is right exactly until the thread calls `run`. -/

namespace BaseCom.Thread

open Transition

variable {ι : Type*} [DecidableEq ι]

/-- The status that goes with a phase. -/
def Phase.status : Phase → Int32
  | .notBegun => threadStatusNew
  | .running => threadStatusRunning
  | .returned => threadStatusExit

namespace Sys

variable {entry : List Stmt} {s t : Sys ι} {a : Act ι}

/-- `getState` returns the status of the thread's phase. -/
def StatusFollows (s : Sys ι) : Prop := s.obj.getState = s.phase.status

/-- The thread does not call `run`. -/
def StaysOutOfRun (s : Sys ι) : Act ι → Prop
  | .next => ∀ t ∈ s.thread, t.code.head? ≠ some .run
  | _ => True

omit [DecidableEq ι] in
instance (s : Sys ι) (a : Act ι) : Decidable (s.StaysOutOfRun a) :=
  match a with
  | .next => inferInstanceAs (Decidable (∀ t ∈ s.thread, t.code.head? ≠ some .run))
  | .start _ | .startFails _ | .body | .join _ | .joinTimed _ _ | .poll _ | .joined _ =>
    isTrue trivial

/-- The status is as constructed, and the thread is somewhere in `thread_proxy_func`. -/
structure Unwritten (s : Sys ι) : Prop where
  status : s.obj.threadStatus = threadStatusNew
  code : ∀ t ∈ s.thread, t.code ∈ threadProxyFunc.tails

omit [DecidableEq ι] in
theorem Initial.unwritten (hi : s.Initial) : s.Unwritten where
  status := by rw [hi.obj]; rfl
  code := by
    rw [hi.thread]
    exact nofun

/-- The three points of `thread_proxy_func`. -/
theorem tails_cases {code : List Stmt} (h : code ∈ threadProxyFunc.tails) :
    code = [.run, .returnNull] ∨ code = [.returnNull] ∨ code = [] := by
  simpa [threadProxyFunc] using h

/-- `thread_proxy_func` leaves the object alone. -/
theorem exec_unwritten {u : Started} {o : CThread} {r : Started × CThread}
    (h : u.code ∈ threadProxyFunc.tails) (he : u.exec o = some r) :
    r.2 = o ∧ r.1.code ∈ threadProxyFunc.tails := by
  obtain ⟨self, code, inRun⟩ := u
  rcases tails_cases h with hc | hc | hc
  · obtain rfl : code = _ := hc
    cases inRun <;>
    · cases he
      exact ⟨rfl, by simp [threadProxyFunc]⟩
  · obtain rfl : code = _ := hc
    cases he
    exact ⟨rfl, by simp [threadProxyFunc]⟩
  · obtain rfl : code = _ := hc
    cases he

theorem Unwritten.step (hs : s.Unwritten) (hst : Step threadProxyFunc s a t) : t.Unwritten := by
  cases hst with
  | start hn h0 =>
    refine ⟨hs.status, ?_⟩
    rintro u ⟨⟩
    simp [threadProxyFunc]
  | startFails hn => exact ⟨hs.status, hs.code⟩
  | next ht he =>
    obtain ⟨ho, hc⟩ := exec_unwritten (hs.code _ ht) he
    refine ⟨by rw [ho]; exact hs.status, ?_⟩
    rintro u ⟨⟩
    exact hc
  | body _ => exact hs
  | join _ | joinTimed _ | poll _ | joined _ _ => exact ⟨hs.status, hs.code⟩

omit [DecidableEq ι] in
/-- So the status is right as long as the thread has not begun. -/
theorem Unwritten.statusFollows_iff (hs : s.Unwritten) :
    s.StatusFollows ↔ s.phase = .notBegun := by
  unfold StatusFollows CThread.getState
  rw [hs.status]
  cases s.phase <;> decide

omit [DecidableEq ι] in
theorem code_of_notBegun {u : Started} (h : u.code ∈ threadProxyFunc.tails)
    (hp : u.phase = .notBegun) : u.code = [.run, .returnNull] ∧ u.inRun = false := by
  unfold Started.phase at hp
  split_ifs at hp with hin hrun
  refine ⟨?_, Bool.eq_false_iff.mpr hin⟩
  rcases tails_cases h with hc | hc | hc
  · exact hc
  · rw [hc] at hrun
    exact absurd hrun (by decide)
  · rw [hc] at hrun
    exact absurd hrun (by decide)

/-- The first statement of the thread is the call of `run`. -/
theorem Unwritten.phase_iff (hs : s.Unwritten) (hp : s.phase = .notBegun)
    (hst : Step threadProxyFunc s a t) : t.phase = .notBegun ↔ s.StaysOutOfRun a := by
  cases hst with
  | start hn h0 => exact iff_of_true (by simp [phase, Started.phase, threadProxyFunc]) trivial
  | next ht he =>
    rename_i u r
    have hu : u.phase = .notBegun := by simpa [phase, ht] using hp
    obtain ⟨hc, hin⟩ := code_of_notBegun (hs.code u ht) hu
    simp only [Started.exec, hc, hin] at he
    cases he
    refine iff_of_false ?_ fun h => h u ht (by rw [hc]; rfl)
    simp [phase, Started.phase]
  | body hrun =>
    rw [hp] at hrun
    cases hrun
  | startFails _ | join _ | joinTimed _ | poll _ | joined _ _ => exact iff_of_true hp trivial

end Sys

/-- Along every run `getState` is right throughout if and only if the started thread
never calls `run`; and a `join(millisTime)` that polls goes on for as long as it may. -/
theorem status_follows_iff {s₀ s : Sys ι} {tr : List (Sys ι × Act ι)} (hi : s₀.Initial)
    (hr : Run (threadSys ι threadProxyFunc) s₀ tr s) :
    (Always (fun u _ => u.StatusFollows) tr ∧ s.StatusFollows ↔ Always Sys.StaysOutOfRun tr) ∧
      ∀ i millisTime k, s.observer i = .polling millisTime k → k ≤ millisTime →
        (s.step threadProxyFunc (.poll i)).map (·.observer i) =
          some (.polling millisTime (k + 1)) := by
  have hinv : ∀ u a v, u.Unwritten → (threadSys ι threadProxyFunc).step u a = some v →
      v.Unwritten := fun _ _ _ hu hk => hu.step (Sys.step_cases hk)
  refine ⟨?_, fun i millisTime k hp hk => ?_⟩
  · refine hr.along_iff hinv (fun u a v hu hgood hk => ?_) hi.unwritten ?_
    · have hst := Sys.step_cases hk
      rw [(hu.step hst).statusFollows_iff]
      exact hu.phase_iff (hu.statusFollows_iff.mp hgood) hst
    · rw [hi.unwritten.statusFollows_iff, Sys.phase, hi.thread]
      rfl
  · have hs := hr.invariant hinv hi.unwritten
    have hpolls : s.obj.polls millisTime k = true := by
      simp only [CThread.polls, hs.status, decide_eq_true hk]
      decide
    simp [Sys.step, hp, hpolls, Sys.observe]

/-- A thread that has been created and not run yet, and somebody waiting for it. -/
theorem status_follows_before_run : ∃ s tr, Run (threadSys Bool threadProxyFunc) .fresh tr s ∧
    s.thread.isSome = true ∧ Always (fun u _ => u.StatusFollows) tr ∧ s.StatusFollows ∧
      (s.step threadProxyFunc (.poll false)).map (·.observer false) = some (.polling 50 2) := by
  obtain ⟨s, hr, ht, ho⟩ := exists_run_of_exec (S := threadSys Bool threadProxyFunc) .fresh
    [.start 140, .joinTimed false 50, .poll false]
    (P := fun s => s.thread.isSome = true ∧ s.observer false = .polling 50 1) (by decide +kernel)
  obtain ⟨hiff, hpoll⟩ := status_follows_iff Sys.initial_fresh hr
  obtain ⟨hall, hs⟩ := hiff.mpr (by unfold Always; decide +kernel)
  exact ⟨s, _, hr, ht, hall, hs, hpoll false 50 1 ho (by decide)⟩

/-- `run` is executing, and `getState` returns `THREAD_STATUS_NEW`. -/
theorem status_new_in_run : ¬ ∀ s : Sys Unit, Reachable (threadSys Unit threadProxyFunc) s →
    s.StatusFollows := by
  intro hall
  obtain ⟨s, hr, hp, hst⟩ := exists_reachable_of_exec (S := threadSys Unit threadProxyFunc)
    Sys.initial_fresh [.start 140, .next]
    (P := fun s => s.phase = .running ∧ s.obj.getState = threadStatusNew) (by decide +kernel)
  have hs := hall s hr
  unfold Sys.StatusFollows at hs
  rw [hp, hst] at hs
  exact absurd hs (by decide)

end BaseCom.Thread
