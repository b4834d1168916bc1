import Mathlib.Data.List.Nodup
import Mathlib.Data.List.Basic

/-! A job made of steps that may fail. An attempt takes the steps that are left in order, up
to the first that fails or to the end, and the next attempt starts where it stopped. So over
any number of attempts no step is taken again that has succeeded. -/

namespace BaseCom.Transition

variable {α : Type*}

/-- The steps left before, those tried with their success, and the steps left after. -/
inductive Attempted : List α → List (α × Bool) → List α → Prop
  | nothing : Attempted [] [] []
  | fails (a : α) (as : List α) : Attempted (a :: as) [(a, false)] (a :: as)
  | succeeds (a : α) {as rest : List α} {log : List (α × Bool)} :
      Attempted as log rest → Attempted (a :: as) ((a, true) :: log) rest

/-- The steps that have succeeded. -/
def succeeded (log : List (α × Bool)) : List α := (log.filter Prod.snd).map Prod.fst

theorem succeeded_append (log new : List (α × Bool)) :
    succeeded (log ++ new) = succeeded log ++ succeeded new := by
  simp [succeeded]

theorem mem_succeeded {a : α} {log : List (α × Bool)} : a ∈ succeeded log ↔ (a, true) ∈ log := by
  simp [succeeded]

/-- No step is tried again once it has succeeded. -/
def Settled (log : List (α × Bool)) : Prop := log.Pairwise fun p q => p.2 = true → q.1 ≠ p.1

namespace Attempted

variable {left rest : List α} {log : List (α × Bool)} {a : α} {as : List α}

theorem split (h : Attempted left log rest) : succeeded log ++ rest = left := by
  induction h with
  | nothing => rfl
  | fails a as => rfl
  | succeeds a _ ih => rw [← ih]; rfl

theorem mem (h : Attempted left log rest) : ∀ p ∈ log, p.1 ∈ left := by
  induction h with
  | nothing => simp
  | fails a as => simp
  | succeeds a _ ih =>
    intro p hp
    rcases List.mem_cons.mp hp with rfl | hp
    · exact List.mem_cons_self
    · exact List.mem_cons_of_mem _ (ih p hp)

theorem settled (h : Attempted left log rest) (hnd : left.Nodup) : Settled log := by
  induction h with
  | nothing => exact List.Pairwise.nil
  | fails a as => exact List.pairwise_singleton _ _
  | succeeds a h ih =>
    obtain ⟨ha, has⟩ := List.nodup_cons.mp hnd
    refine List.pairwise_cons.mpr ⟨fun q hq _ he => ?_, ih has⟩
    have hmem := h.mem q hq
    rw [he] at hmem
    exact ha hmem

/-- An attempt begins with the first step left. -/
theorem head (h : Attempted (a :: as) log rest) : ∃ b, log.head? = some (a, b) := by
  cases h with
  | fails => exact ⟨false, rfl⟩
  | succeeds => exact ⟨true, rfl⟩

/-- If steps are left, the first of them has failed. -/
theorem failed (h : Attempted left log (a :: as)) : log.getLast? = some (a, false) := by
  generalize hrest : a :: as = rest at h
  induction h with
  | nothing => cases hrest
  | fails b bs =>
    cases hrest
    rfl
  | succeeds b h ih => rw [List.getLast?_cons, ih hrest]; rfl

/-- If none are, the last of the job has succeeded. -/
theorem finished (h : Attempted left log []) (hne : left ≠ []) :
    log.getLast? = some (left.getLast hne, true) := by
  generalize hrest : [] = rest at h
  induction h with
  | nothing => exact absurd rfl hne
  | fails b bs => cases hrest
  | @succeeds b bs _ log h ih =>
    cases bs with
    | nil =>
      cases h
      rfl
    | cons c cs => rw [List.getLast?_cons, ih (List.cons_ne_nil c cs) hrest]; rfl

end Attempted

/-- Where a job is after some attempts: what has succeeded and what is left make it up. -/
structure Underway (job : List α) (log : List (α × Bool)) (left : List α) : Prop where
  split : succeeded log ++ left = job
  settled : Settled log

theorem Underway.start (job : List α) : Underway job [] job := ⟨rfl, List.Pairwise.nil⟩

theorem Underway.attempt {job left rest : List α} {log new : List (α × Bool)}
    (h : Underway job log left) (hnd : job.Nodup) (ha : Attempted left new rest) :
    Underway job (log ++ new) rest := by
  rw [← h.split] at hnd
  obtain ⟨-, hleft, hdisj⟩ := List.nodup_append'.mp hnd
  refine ⟨?_, List.pairwise_append.mpr ⟨h.settled, ha.settled hleft, fun p hp q hq hs he => ?_⟩⟩
  · rw [succeeded_append, List.append_assoc, ha.split, h.split]
  · have hdone : p.1 ∈ succeeded log := by
      apply mem_succeeded.mpr
      rw [← hs]
      exact hp
    exact hdisj hdone (he ▸ ha.mem q hq)

end BaseCom.Transition
