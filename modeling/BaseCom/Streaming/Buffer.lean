import Mathlib.Algebra.BigOperators.Group.List.Basic
import Mathlib.Algebra.Order.Ring.Nat
import Mathlib.Data.List.Induction

/-! A buffer that is let out and fed in turn. A step lets out at most what is offered to
it, and then adds what it is fed; an offer that finds less is not made up for later. What
is left at the end is the most by which, from some step on, the feed exceeds the offers
of the steps after it. -/

namespace BaseCom.Streaming

variable {α : Type*} {offer fed : α → ℕ}

/-- What is left after the steps. -/
def level (offer fed : α → ℕ) (l : List α) : ℕ := l.foldl (fun n a => n - offer a + fed a) 0

theorem level_snoc (l : List α) (a : α) :
    level offer fed (l ++ [a]) = level offer fed l - offer a + fed a := by
  simp only [level, List.foldl_append, List.foldl_cons, List.foldl_nil]

variable {total : List α → ℕ} {l : List α}

/-- The feed of each step is what it adds to the total of the steps before. -/
def Totals (total : List α → ℕ) (fed : α → ℕ) (l : List α) : Prop :=
  ∀ xs a ys, l = xs ++ a :: ys → total (xs ++ [a]) = total xs + fed a

theorem Totals.sum (h : Totals total fed l) {xs ys : List α} (hl : l = xs ++ ys) :
    total l = total xs + (ys.map fed).sum := by
  induction ys generalizing xs with
  | nil => simpa using congrArg total hl
  | cons a ys ih =>
    have hstep := h xs a ys hl
    have hrest := @ih (xs ++ [a]) (by simpa using hl)
    rw [hrest, hstep, List.map_cons, List.sum_cons, Nat.add_assoc]

end BaseCom.Streaming
