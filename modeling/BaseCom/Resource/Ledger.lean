import Mathlib.Data.List.Nodup
import Mathlib.Data.List.Sublists
import Mathlib.Logic.Function.Basic

/-! Names handed out by a table and held by parties that were told what each name
stands for. A ledger is right when no name is held twice and every held name
still denotes, in the table, what its holder was told. Opening a fresh name,
passing a name on and closing a name through its only holder keep it right. -/

namespace BaseCom.Resource

variable {η ν κ : Type*}

/-- The handles held: `name` is what the holder uses, `res` what it was told. -/
structure Owned (name : η → ν) (res : η → κ) (table : ν → Option κ) (held : List η) : Prop where
  once : (held.map name).Nodup
  denotes : ∀ h ∈ held, table (name h) = some (res h)

variable {name : η → ν} {res : η → κ} {table : ν → Option κ} {held held' : List η}

namespace Owned

theorem nil : Owned name res table [] := ⟨by simp, by simp⟩

/-- Passing handles around changes nothing. -/
theorem perm (h : Owned name res table held) (hp : held.Perm held') :
    Owned name res table held' :=
  ⟨(hp.map name).nodup_iff.mp h.once, fun x hx => h.denotes x (hp.mem_iff.mpr hx)⟩

/-- Dropping a handle without closing it leaks it, but keeps the rest right. -/
theorem sublist (h : Owned name res table held) (hs : held'.Sublist held) :
    Owned name res table held' :=
  ⟨(hs.map name).nodup h.once, fun x hx => h.denotes x (hs.subset hx)⟩

/-- Two held handles with one name are one handle. -/
theorem eq_of_name (h : Owned name res table held) {x y : η} (hx : x ∈ held) (hy : y ∈ held)
    (he : name x = name y) : x = y :=
  List.inj_on_of_nodup_map h.once hx hy he

variable [DecidableEq ν]

/-- A name that was not open is handed out. -/
theorem opened (h : Owned name res table held) {x : η} (hx : table (name x) = none) :
    Owned name res (Function.update table (name x) (some (res x))) (x :: held) := by
  have hne : ∀ y ∈ held, name y ≠ name x := by
    intro y hy he
    have hd := h.denotes y hy
    rw [he, hx] at hd
    contradiction
  refine ⟨?_, ?_⟩
  · rw [List.map_cons, List.nodup_cons]
    refine ⟨fun hm => ?_, h.once⟩
    obtain ⟨y, hy, he⟩ := List.mem_map.mp hm
    exact hne y hy he
  · intro y hy
    rcases List.mem_cons.mp hy with rfl | hy
    · exact Function.update_self ..
    · rw [Function.update_of_ne (hne y hy)]
      exact h.denotes y hy

/-- A name is closed and nobody goes on holding it. -/
theorem closed (h : Owned name res table held) (hs : held'.Sublist held) {n : ν}
    (hn : ∀ y ∈ held', name y ≠ n) : Owned name res (Function.update table n none) held' := by
  refine ⟨(h.sublist hs).once, fun y hy => ?_⟩
  rw [Function.update_of_ne (hn y hy)]
  exact h.denotes y (hs.subset hy)

end Owned

end BaseCom.Resource
