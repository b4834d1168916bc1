import BaseCom.Transition.Run
import Mathlib.Data.List.Count

/-! Progress of one party among others. A measure that the party's own steps lower and
nobody's raise bounds how many of them a run can hold before the party has done what it is
about to do, whatever the others do in between. -/

namespace BaseCom.Transition

variable {σ α : Type*} {S : Lts σ α}

/-- The steps of a trace that a party makes. -/
def stepsOf (mine : α → Bool) (tr : List (σ × α)) : ℕ := tr.countP fun p => mine p.2

theorem stepsOf_tail (mine : α → Bool) (tr : List (σ × α)) (s : σ) (a : α) :
    stepsOf mine (tr ++ [(s, a)]) = stepsOf mine tr + if mine a then 1 else 0 := by
  simp only [stepsOf, List.countP_append, List.countP_singleton]

theorem stepsOf_append (mine : α → Bool) (tr ts : List (σ × α)) :
    stepsOf mine (tr ++ ts) = stepsOf mine tr + stepsOf mine ts := List.countP_append

/-- A guard on labels alone holds along a trace if it holds of its labels. -/
theorem always_trace {G : σ → α → Prop} {as : List α} (h : ∀ a ∈ as, ∀ s, G s a) (s : σ) :
    Always G (trace S s as) := by
  induction as generalizing s with
  | nil => exact always_nil G
  | cons a as ih =>
    have hrest := fun t => ih (fun b hb => h b (List.mem_cons_of_mem a hb)) t
    unfold trace Always
    rw [List.forall_mem_cons]
    refine ⟨h a List.mem_cons_self s, ?_⟩
    cases S.step s a with
    | none => exact always_nil G
    | some t => exact hrest t

/-- A step back to the same state, any number of times. -/
theorem Run.idle {s : σ} {a : α} (h : S.step s a = some s) (n : ℕ) :
    Run S s (List.replicate n (s, a)) s := by
  induction n with
  | zero => exact .refl s
  | succ n ih =>
    rw [List.replicate_succ']
    exact ih.tail h

theorem stepsOf_replicate {mine : α → Bool} {a : α} (h : mine a = true) (s : σ) (n : ℕ) :
    stepsOf mine (List.replicate n (s, a)) = n := by
  simp [stepsOf, List.countP_replicate, h]

/-- A party that makes more steps than the measure allows has done it. -/
theorem Run.progress {Inv : σ → Prop} {G Done : σ → α → Prop} {mine : α → Bool} (μ : σ → ℕ)
    (hstep : ∀ s a t, Inv s → G s a → S.step s a = some t →
      Done s a ∨ Inv t ∧ μ t + (if mine a then 1 else 0) ≤ μ s)
    {s t : σ} {tr : List (σ × α)} (h : Run S s tr t) (hs : Inv s) (hG : Always G tr)
    (hlong : μ s < stepsOf mine tr) : ∃ p ∈ tr, Done p.1 p.2 := by
  have hboth : (∃ p ∈ tr, Done p.1 p.2) ∨ Inv t ∧ μ t + stepsOf mine tr ≤ μ s := by
    clear hlong
    induction h with
    | refl => exact .inr ⟨hs, Nat.le_refl _⟩
    | @tail t u tr a hr hk ih =>
      obtain ⟨hG, ha⟩ := always_tail.mp hG
      rcases ih hG with ⟨p, hp, hd⟩ | ⟨ht, hle⟩
      · exact .inl ⟨p, List.mem_append_left _ hp, hd⟩
      · rcases hstep _ _ _ ht ha hk with hd | ⟨hu, hlt⟩
        · exact .inl ⟨(t, a), List.mem_append_right _ (List.mem_singleton_self _), hd⟩
        · refine .inr ⟨hu, ?_⟩
          rw [stepsOf_tail]
          omega
  rcases hboth with hd | ⟨-, hle⟩
  · exact hd
  · omega

/-- Where some step always lowers a measure until the goal is met, the goal can be met. -/
theorem exists_run_of_measure {Inv Goal : σ → Prop} {G : σ → α → Prop} (μ : σ → ℕ)
    (hstep : ∀ s, Inv s → ¬ Goal s → ∃ a t, S.step s a = some t ∧ G s a ∧ Inv t ∧ μ t < μ s)
    {s : σ} (hs : Inv s) : ∃ t tr, Run S s tr t ∧ Always G tr ∧ Inv t ∧ Goal t := by
  induction hn : μ s using Nat.strongRecOn generalizing s with
  | ind n ih =>
    by_cases hg : Goal s
    · exact ⟨s, [], .refl s, always_nil G, hs, hg⟩
    · obtain ⟨a, t, hk, ha, ht, hlt⟩ := hstep s hs hg
      obtain ⟨u, tr, hr, hG, hu, hgoal⟩ := ih (μ t) (hn ▸ hlt) ht rfl
      refine ⟨u, _, (Run.single hk).trans hr, ?_, hu, hgoal⟩
      exact List.forall_mem_cons.mpr ⟨ha, hG⟩

end BaseCom.Transition
