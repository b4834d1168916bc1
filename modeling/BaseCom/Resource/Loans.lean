import Mathlib.Data.List.Nodup
import Mathlib.Data.List.Count

/-! What is lent out, what has come back and what is still held. The books are right when
nothing is lent twice and everything lent is back or held, once. A holder that gives back
what it holds before it takes something new keeps them right. -/

namespace BaseCom.Resource

variable {ν : Type*}

structure Loans (lent back held : List ν) : Prop where
  once : lent.Nodup
  split : (back ++ held).Perm lent

variable {lent back held new : List ν}

namespace Loans

theorem nil : Loans ([] : List ν) [] [] := ⟨List.nodup_nil, List.Perm.refl _⟩

theorem nodup (h : Loans lent back held) : (back ++ held).Nodup := h.split.nodup_iff.mpr h.once

/-- Nothing comes back twice. -/
theorem back_nodup (h : Loans lent back held) : back.Nodup := (List.nodup_append'.mp h.nodup).1

/-- Nothing comes back that was not lent. -/
theorem back_subset (h : Loans lent back held) : back ⊆ lent := by
  intro x hx
  exact h.split.mem_iff.mp (List.mem_append_left held hx)

/-- What is held has not come back. -/
theorem held_out (h : Loans lent back held) {x : ν} (hx : x ∈ held) : x ∈ lent ∧ x ∉ back := by
  refine ⟨h.split.mem_iff.mp (List.mem_append_right back hx), fun hb => ?_⟩
  exact (List.nodup_append'.mp h.nodup).2.2 hb hx

/-- The holder gives back what it holds and takes something new. -/
theorem exchange (h : Loans lent back held) (hnew : new.Nodup) (hfresh : ∀ x ∈ new, x ∉ lent) :
    Loans (lent ++ new) (back ++ held) new := by
  refine ⟨List.nodup_append'.mpr ⟨h.once, hnew, fun x hx hn => hfresh x hn hx⟩, ?_⟩
  exact h.split.append_right new

/-- Everything lent has come back exactly when nothing is held. -/
theorem count_eq_one_iff [DecidableEq ν] (h : Loans lent back held) :
    (∀ x ∈ lent, back.count x = 1) ↔ held = [] := by
  constructor
  · intro hall
    apply List.eq_nil_iff_forall_not_mem.mpr
    intro x hx
    obtain ⟨hl, hb⟩ := h.held_out hx
    have hone := hall x hl
    rw [List.count_eq_zero_of_not_mem hb] at hone
    cases hone
  · rintro rfl x hx
    have hb : x ∈ back := by
      have hmem := h.split.mem_iff.mpr hx
      rwa [List.append_nil] at hmem
    exact List.count_eq_one_of_mem h.back_nodup hb

end Loans

end BaseCom.Resource
