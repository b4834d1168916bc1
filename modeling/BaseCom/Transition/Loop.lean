import Mathlib.Logic.Function.Iterate
import Mathlib.Data.Nat.Find

/-! Loops with a test and a body. A loop ends after so many rounds if its test fails there
and has not failed before; it starts a round if its test has not failed up to it. Whether a
loop ends is whether its test fails at all on what the body alone would compute. -/

namespace BaseCom.Transition

variable {σ : Type*}

structure Loop (σ : Type*) where
  test : σ → Bool
  body : σ → σ

namespace Loop

variable (L : Loop σ) {s : σ} {m n : ℕ}

/-- The test succeeds in every round up to this one. -/
def Starts (s : σ) (n : ℕ) : Prop := ∀ m ≤ n, L.test (L.body^[m] s) = true

/-- The loop makes so many rounds and ends. -/
def EndsAfter (s : σ) (n : ℕ) : Prop :=
  L.test (L.body^[n] s) = false ∧ ∀ m < n, L.test (L.body^[m] s) = true

variable {L}

/-- A round that is started comes before any at which the test fails. -/
theorem Starts.lt (h : L.Starts s n) (hm : L.test (L.body^[m] s) = false) : n < m := by
  by_contra hle
  rw [h m (by omega)] at hm
  cases hm

theorem EndsAfter.le (h : L.EndsAfter s n) (hm : L.test (L.body^[m] s) = false) : n ≤ m := by
  by_contra hlt
  rw [h.2 m (by omega)] at hm
  cases hm

/-- The rounds before the end are started. -/
theorem EndsAfter.starts (h : L.EndsAfter s n) (hm : m < n) : L.Starts s m :=
  fun j hj => h.2 j (by omega)

theorem exists_endsAfter_iff :
    (∃ n, L.EndsAfter s n) ↔ ∃ n, L.test (L.body^[n] s) = false := by
  constructor
  · rintro ⟨n, h, -⟩
    exact ⟨n, h⟩
  · intro h
    refine ⟨Nat.find h, Nat.find_spec h, fun m hm => ?_⟩
    have hmin := Nat.find_min h hm
    simpa using hmin

end Loop

end BaseCom.Transition
