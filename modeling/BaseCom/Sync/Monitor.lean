import Mathlib.Logic.Function.Basic

/-! A mutex, the data it guards, and any number of threads with their program
points. A proof outline says which points lie in a critical section and what is known
about the data there. It is valid in a state if the owner of the mutex is the one
thread in a critical section and every thread stands where its assertion holds. The
rules below say what each kind of step has to establish, for the moving thread alone. -/

namespace BaseCom.Sync

variable {ι π δ : Type*}

/-- `mutex` is the owner, if any. -/
structure Monitor (ι π δ : Type*) where
  mutex : Option ι
  pc : ι → π
  data : δ

/-- Critical points, and assertions that say nothing outside of them. -/
structure Outline (π δ : Type*) where
  holds : π → Prop
  asserts : π → δ → Prop
  outside : ∀ p d, ¬ holds p → asserts p d

structure Outline.Valid (o : Outline π δ) (m : Monitor ι π δ) : Prop where
  owner : ∀ i, m.mutex = some i ↔ o.holds (m.pc i)
  asserted : ∀ i, o.asserts (m.pc i) m.data

namespace Monitor

variable [DecidableEq ι]

/-- A step that leaves mutex and data alone. -/
def goto (m : Monitor ι π δ) (i : ι) (p : π) : Monitor ι π δ :=
  { m with pc := Function.update m.pc i p }

def lock (m : Monitor ι π δ) (i : ι) (p : π) : Monitor ι π δ :=
  { m with mutex := some i, pc := Function.update m.pc i p }

def unlock (m : Monitor ι π δ) (i : ι) (p : π) : Monitor ι π δ :=
  { m with mutex := none, pc := Function.update m.pc i p }

/-- An assignment to the guarded data. -/
def store (m : Monitor ι π δ) (i : ι) (p : π) (d : δ) : Monitor ι π δ :=
  { m with pc := Function.update m.pc i p, data := d }

/-- Every thread is moved along `f`. -/
def redirect (m : Monitor ι π δ) (f : π → π) : Monitor ι π δ := { m with pc := fun i => f (m.pc i) }

variable (m : Monitor ι π δ) (i : ι) (p : π)

@[simp] theorem goto_pc_self : (m.goto i p).pc i = p := Function.update_self ..

@[simp] theorem lock_pc_self : (m.lock i p).pc i = p := Function.update_self ..

@[simp] theorem unlock_pc_self : (m.unlock i p).pc i = p := Function.update_self ..

@[simp] theorem store_pc_self (d : δ) : (m.store i p d).pc i = p := Function.update_self ..

variable {i} {j : ι}

theorem goto_pc_of_ne (h : j ≠ i) : (m.goto i p).pc j = m.pc j := Function.update_of_ne h ..

end Monitor

namespace Outline.Valid

variable {o : Outline π δ} {m : Monitor ι π δ} {i j : ι} {p : π}

/-- Mutual exclusion. -/
theorem exclusive (v : o.Valid m) (hi : o.holds (m.pc i)) (hj : o.holds (m.pc j)) : i = j := by
  have hoi := (v.owner i).mpr hi
  rw [(v.owner j).mpr hj] at hoi
  exact (Option.some.inj hoi).symm

theorem not_holds_of_free (v : o.Valid m) (hm : m.mutex = none) (i : ι) : ¬ o.holds (m.pc i) := by
  intro hi
  have ho := (v.owner i).mpr hi
  rw [hm] at ho
  cases ho

/-- Threads outside of critical sections are moved about, as a broadcast does. -/
theorem redirect (v : o.Valid m) {f : π → π} (hf : ∀ p, f p = p ∨ ¬ o.holds p ∧ ¬ o.holds (f p)) :
    o.Valid (m.redirect f) := by
  refine ⟨fun j => ?_, fun j => ?_⟩
  · show m.mutex = some j ↔ o.holds (f (m.pc j))
    rcases hf (m.pc j) with he | ⟨hp, hq⟩
    · rw [he]
      exact v.owner j
    · rw [v.owner j]
      exact iff_of_false hp hq
  · show o.asserts (f (m.pc j)) m.data
    rcases hf (m.pc j) with he | ⟨hp, hq⟩
    · rw [he]
      exact v.asserted j
    · exact o.outside _ _ hq

variable [DecidableEq ι]

theorem goto (v : o.Valid m) (hp : o.holds p ↔ o.holds (m.pc i)) (ha : o.asserts p m.data) :
    o.Valid (m.goto i p) where
  owner := (Function.forall_update_iff m.pc fun j q => m.mutex = some j ↔ o.holds q).mpr
    ⟨(v.owner i).trans hp.symm, fun j _ => v.owner j⟩
  asserted := (Function.forall_update_iff m.pc fun _ q => o.asserts q m.data).mpr
    ⟨ha, fun j _ => v.asserted j⟩

theorem lock (v : o.Valid m) (hm : m.mutex = none) (hp : o.holds p) (ha : o.asserts p m.data) :
    o.Valid (m.lock i p) where
  owner := by
    refine (Function.forall_update_iff m.pc fun j q => some i = some j ↔ o.holds q).mpr
      ⟨iff_of_true rfl hp, fun j hj => ?_⟩
    exact iff_of_false (fun he => hj (Option.some.inj he).symm) (v.not_holds_of_free hm j)
  asserted := (Function.forall_update_iff m.pc fun _ q => o.asserts q m.data).mpr
    ⟨ha, fun j _ => v.asserted j⟩

theorem unlock (v : o.Valid m) (hi : o.holds (m.pc i)) (hp : ¬ o.holds p) :
    o.Valid (m.unlock i p) where
  owner := by
    refine (Function.forall_update_iff m.pc fun j q => none = some j ↔ o.holds q).mpr
      ⟨iff_of_false nofun hp, fun j hj => ?_⟩
    exact iff_of_false nofun fun hh => hj (v.exclusive hh hi)
  asserted := (Function.forall_update_iff m.pc fun _ q => o.asserts q m.data).mpr
    ⟨o.outside _ _ hp, fun j _ => v.asserted j⟩

theorem store (v : o.Valid m) (hi : o.holds (m.pc i)) (hp : o.holds p) {d : δ}
    (ha : o.asserts p d) : o.Valid (m.store i p d) where
  owner := (Function.forall_update_iff m.pc fun j q => m.mutex = some j ↔ o.holds q).mpr
    ⟨iff_of_true ((v.owner i).mpr hi) hp, fun j _ => v.owner j⟩
  asserted := by
    refine (Function.forall_update_iff m.pc fun _ q => o.asserts q d).mpr ⟨ha, fun j hj => ?_⟩
    exact o.outside _ _ fun hh => hj (v.exclusive hh hi)

end Outline.Valid

end BaseCom.Sync
