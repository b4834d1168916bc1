import BaseCom.Transition.Run
import Mathlib.Order.Basic

/-! Items that go through a system in the order in which they came. At a point of their
way some have passed and some are still before it. A step lets the first of these pass,
loses some, or is an arrival at the end; so over any run the items pass in order, and none
passes twice. -/

namespace BaseCom.Transition

variable {α β σ : Type*} [Preorder α]

/-- The items are in order, and all came before `next`. -/
structure InOrder (items : List α) (next : α) : Prop where
  sorted : items.Pairwise (· < ·)
  known : ∀ x ∈ items, x < next

namespace InOrder

variable {items items' : List α} {next next' : α}

theorem nil (next : α) : InOrder [] next := ⟨List.Pairwise.nil, List.forall_mem_nil _⟩

theorem sublist (h : InOrder items next) (hs : items'.Sublist items) : InOrder items' next :=
  ⟨h.sorted.sublist hs, fun x hx => h.known x (hs.subset hx)⟩

/-- The next item arrives. -/
theorem arrive (h : InOrder items next) (hlt : next < next') : InOrder (items ++ [next]) next' := by
  refine ⟨List.pairwise_append.mpr ⟨h.sorted, List.pairwise_singleton _ _, ?_⟩, ?_⟩
  · intro x hx y hy
    rw [List.mem_singleton.mp hy]
    exact h.known x hx
  · intro x hx
    rcases List.mem_append.mp hx with hx | hx
    · exact (h.known x hx).trans hlt
    · rwa [List.mem_singleton.mp hx]

/-- No item occurs twice. -/
theorem nodup (h : InOrder items next) : items.Nodup := by
  apply h.sorted.imp
  intro x y hlt
  exact ne_of_lt hlt

end InOrder

/-- What a step does at a point of the way: of the items before it some pass and some are
lost, or one arrives. -/
def Advances (before before' passes : List α) (next next' : α) : Prop :=
  (passes ++ before').Sublist before ∧ next' = next ∨
    passes ++ before' = before ++ [next] ∧ next < next'

/-- The first item before the point, or else the one that comes next. -/
def foremost (before : List α) (next : α) : α := before.headD next

namespace InOrder

variable {before before' passes : List α} {next next' : α}

theorem foremost_le (h : InOrder before next) : foremost before next ≤ next := by
  cases before with
  | nil => exact le_rfl
  | cons x xs => exact (h.known x List.mem_cons_self).le

theorem foremost_le_of_mem (h : InOrder before next) {x : α} (hx : x ∈ before) :
    foremost before next ≤ x := by
  cases before with
  | nil => cases hx
  | cons y ys =>
    rcases List.mem_cons.mp hx with rfl | hx
    · exact le_rfl
    · exact (List.rel_of_pairwise_cons h.sorted hx).le

theorem advance (h : InOrder before next) (ha : Advances before before' passes next next') :
    InOrder (passes ++ before') next' := by
  rcases ha with ⟨hsub, rfl⟩ | ⟨he, hlt⟩
  · exact h.sublist hsub
  · rw [he]
    exact h.arrive hlt

/-- Nothing that is still before the point comes to be overtaken. -/
theorem foremost_mono (h : InOrder before next) (ha : Advances before before' passes next next') :
    foremost before next ≤ foremost (passes ++ before') next' := by
  rcases ha with ⟨hsub, rfl⟩ | ⟨he, -⟩
  · cases hp : passes ++ before' with
    | nil => exact h.foremost_le
    | cons x xs =>
      have hx : x ∈ passes ++ before' := by
        rw [hp]
        exact List.mem_cons_self
      exact h.foremost_le_of_mem (hsub.subset hx)
  · rw [he]
    cases before with
    | nil => exact le_rfl
    | cons x xs => exact le_rfl

/-- What passes is behind the point afterwards. -/
theorem lt_foremost (h : InOrder (passes ++ before') next') {x : α} (hx : x ∈ passes) :
    x < foremost before' next' := by
  cases before' with
  | nil => exact h.known x (List.mem_append_left _ hx)
  | cons y ys =>
    exact (List.pairwise_append.mp h.sorted).2.2 x hx y List.mem_cons_self

end InOrder

/-- The items pass in the order of their arrival. -/
theorem Run.inOrder {S : Lts σ β} {Inv : σ → Prop} {before : σ → List α}
    {passes : σ → β → List α} {next : σ → α}
    (hinv : ∀ s a t, Inv s → S.step s a = some t → Inv t)
    (hstep : ∀ s a t, Inv s → S.step s a = some t →
      Advances (before s) (before t) (passes s a) (next s) (next t))
    {s t : σ} {tr : List (σ × β)} (h : Run S s tr t) (hs : Inv s) (hb : before s = []) :
    InOrder (tr.flatMap (fun p => passes p.1 p.2) ++ before t) (next t) := by
  induction h with
  | refl =>
    rw [hb]
    exact .nil _
  | @tail t u tr a hr hk ih =>
    have hpast : (tr ++ [(t, a)]).flatMap (fun p => passes p.1 p.2) ++ before u =
        tr.flatMap (fun p => passes p.1 p.2) ++ (passes t a ++ before u) := by
      simp
    rw [hpast]
    rcases hstep _ _ _ (hr.invariant hinv hs) hk with ⟨hsub, hn⟩ | ⟨he, hlt⟩
    · rw [hn]
      exact ih.sublist (hsub.append_left _)
    · rw [he, ← List.append_assoc]
      exact ih.arrive hlt

end BaseCom.Transition
