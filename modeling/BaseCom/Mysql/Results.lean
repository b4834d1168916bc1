import BaseCom.Mysql.Connection
import BaseCom.Resource.Loans

/-! Who frees the result sets. `Execute` frees the one in `res_` before it stores another,
and so does every retry. The last one is left to the destructor, which closes the connection
and frees nothing. -/

namespace BaseCom.Mysql

open Transition Resource

/-- A connection in use, until the destructor has run. -/
structure Client (ρ : Type*) extends Use ρ where
  destructed : Bool

/-- A call of `Execute`, with what would become of its two attempts, or the destructor. -/
inductive ClientAct (ρ : Type*)
  | execute (query : String) (first second : Attempt ρ)
  | destruct

namespace Client

variable {ρ : Type*}

/-- Every result set is a new one. -/
def MayStore (c : Client ρ) (a : Attempt ρ) : Prop := ∀ res ∈ a.result, res ∉ c.lib.stored

instance [DecidableEq ρ] (c : Client ρ) (a : Attempt ρ) : Decidable (c.MayStore a) :=
  inferInstanceAs (Decidable (∀ res ∈ _, res ∉ _))

variable [DecidableEq ρ]

def step (c : Client ρ) : ClientAct ρ → Option (Client ρ)
  | .execute query first second =>
    if c.destructed = false ∧ c.MayStore first ∧ c.MayStore second then
      some { c with toUse := (c.execute query first second).2 }
    else none
  | .destruct =>
    if c.destructed = false then
      some { c with lib := MysqlConnection.destruct serverCalls c.lib, destructed := true }
    else none

omit [DecidableEq ρ] in
/-- A constructed object, and a library that has stored nothing for it. -/
structure Initial (c : Client ρ) : Prop where
  conn : ∃ status, c.conn = .construct status
  stored : c.lib.stored = []
  freed : c.lib.freed = []
  destructed : c.destructed = false

/-- No result set is freed twice, the one in `res_` is not freed, and when the object is gone
every result set has been freed once. -/
structure Released (c : Client ρ) : Prop where
  once : c.lib.freed.Nodup ∧ c.lib.freed ⊆ c.lib.stored
  held : c.destructed = false → ∀ res ∈ c.conn.res, res ∈ c.lib.stored ∧ res ∉ c.lib.freed
  all : c.destructed = true → ∀ res ∈ c.lib.stored, c.lib.freed.count res = 1

omit [DecidableEq ρ] in
/-- The destructor finds `res_` null. -/
def EndsEmpty (c : Client ρ) : ClientAct ρ → Prop
  | .destruct => c.conn.res = none
  | .execute _ _ _ => True

instance (c : Client ρ) (l : ClientAct ρ) : Decidable (c.EndsEmpty l) :=
  match l with
  | .destruct => inferInstanceAs (Decidable (_ = _))
  | .execute _ _ _ => isTrue trivial

end Client

/-- The connection under any sequence of calls. -/
def client (ρ : Type*) [DecidableEq ρ] : Lts (Client ρ) (ClientAct ρ) where
  init := Client.Initial
  step := Client.step

namespace Client

variable {ρ : Type*} {c d : Client ρ} {l : ClientAct ρ}

/-- The library's books on the connection. -/
def Booked (c : Client ρ) : Prop := Loans c.lib.stored c.lib.freed c.conn.res.toList

theorem Initial.booked (hi : c.Initial) : c.Booked := by
  obtain ⟨status, hc⟩ := hi.conn
  unfold Booked
  rw [hi.stored, hi.freed, hc]
  exact .nil

/-- The last result set goes back and the new one takes its place. -/
theorem Booked.execute (hb : c.Booked) {query : String} {first second : Attempt ρ}
    (h₁ : c.MayStore first) (h₂ : c.MayStore second) :
    Booked { c with toUse := (c.execute query first second).2 } := by
  have hx := c.conn.execute_executed query (c.lib.ready first second)
  have hfresh : ∀ res ∈ (c.lib.ready first second).last.result.toList, res ∉ c.lib.stored := by
    intro res hres
    rw [Option.mem_toList] at hres
    unfold Server.last at hres
    split_ifs at hres
    · exact h₁ res hres
    · exact h₂ res hres
  have hone : (c.lib.ready first second).last.result.toList.Nodup := by
    cases (c.lib.ready first second).last.result <;> simp
  have hnew := hb.exchange hone hfresh
  unfold Booked Use.execute
  rw [hx.stored, hx.freed, hx.res]
  exact hnew

theorem step_cases [DecidableEq ρ] (h : c.step l = some d) :
    c.destructed = false ∧
      ((∃ query first second, l = .execute query first second ∧ c.MayStore first ∧
          c.MayStore second ∧ d = { c with toUse := (c.execute query first second).2 }) ∨
        l = .destruct ∧ d = { c with destructed := true }) := by
  cases l with
  | execute query first second =>
    simp only [step] at h
    split_ifs at h with hok
    cases h
    exact ⟨hok.1, .inl ⟨query, first, second, rfl, hok.2.1, hok.2.2, rfl⟩⟩
  | destruct =>
    simp only [step] at h
    split_ifs at h with hok
    cases h
    exact ⟨hok, .inr ⟨rfl, rfl⟩⟩

theorem Booked.step [DecidableEq ρ] (hb : c.Booked) (h : c.step l = some d) : d.Booked := by
  obtain ⟨-, ⟨query, first, second, -, h₁, h₂, rfl⟩ | ⟨-, rfl⟩⟩ := step_cases h
  · exact hb.execute h₁ h₂
  · exact hb

/-- While the object lives its books say all there is to say. -/
theorem Booked.released_of_alive [DecidableEq ρ] (hb : c.Booked) (hc : c.destructed = false) :
    c.Released where
  once := ⟨hb.back_nodup, hb.back_subset⟩
  held := by
    intro _ res hres
    exact hb.held_out (Option.mem_toList.mpr hres)
  all := by
    intro h
    rw [hc] at h
    cases h

theorem Booked.released_iff [DecidableEq ρ] (hb : c.Booked) (h : c.step l = some d) :
    d.Released ↔ c.EndsEmpty l := by
  obtain ⟨hc, ⟨query, first, second, rfl, h₁, h₂, rfl⟩ | ⟨rfl, rfl⟩⟩ := step_cases h
  · exact iff_of_true ((hb.execute h₁ h₂).released_of_alive hc) trivial
  · have hall := hb.count_eq_one_iff
    rw [Option.toList_eq_nil_iff] at hall
    constructor
    · intro hd
      exact hall.mp (hd.all rfl)
    · intro hnone
      exact ⟨⟨hb.back_nodup, hb.back_subset⟩, (by rintro ⟨⟩), fun _ => hall.mpr hnone⟩

end Client

/-- In every state of a run no result set has been freed twice, the one in `res_` has not been
freed, and at the end of the destructor every one has been freed, if and only if the
destructor ran with `res_` null. -/
theorem released_once_iff {ρ : Type*} [DecidableEq ρ] {c₀ c : Client ρ}
    {tr : List (Client ρ × ClientAct ρ)} (hi : c₀.Initial) (hr : Run (client ρ) c₀ tr c) :
    Always (fun u _ => u.Released) tr ∧ c.Released ↔ Always Client.EndsEmpty tr := by
  have hinv : ∀ u l v, u.Booked → (client ρ).step u l = some v → v.Booked :=
    fun _ _ _ hu hk => hu.step hk
  refine hr.along_iff hinv (fun u l v hu _ hk => hu.released_iff hk) hi.booked ?_
  exact hi.booked.released_of_alive hi.destructed

/-- A connection just made. -/
def Client.fresh : Client ℕ :=
  ⟨⟨.construct 0, ⟨.done none, .done none, 0, "", [], [], []⟩⟩, false⟩

theorem Client.initial_fresh : Client.fresh.Initial := ⟨⟨0, rfl⟩, rfl, rfl, rfl⟩

/-- A query, an insertion, and the end. -/
def queryThenInsert : List (ClientAct ℕ) := [
  .execute "SELECT a FROM t" (.done (some 0)) (.done none),
  .execute "INSERT INTO t VALUES (1)" (.done none) (.done none), .destruct]

theorem released_once_after_insert : ∃ c tr, Run (client ℕ) .fresh tr c ∧
    c.destructed = true ∧ c.lib.stored = [0] ∧ c.Released := by
  obtain ⟨c, hr, hd, hst⟩ := exists_run_of_exec (S := client ℕ) .fresh queryThenInsert
    (P := fun c => c.destructed = true ∧ c.lib.stored = [0]) (by decide +kernel)
  refine ⟨c, _, hr, hd, hst, ((released_once_iff Client.initial_fresh hr).mpr ?_).2⟩
  unfold Always
  decide +kernel

/-- A query, and the end: its result set is never freed. -/
theorem result_leaked_by_destructor : ¬ ∀ c, Reachable (client ℕ) c → c.Released := by
  intro hall
  obtain ⟨c, hr, hd, hst, hf⟩ := exists_reachable_of_exec (S := client ℕ) Client.initial_fresh
    [.execute "SELECT a FROM t" (.done (some 0)) (.done none), .destruct]
    (P := fun c => c.destructed = true ∧ c.lib.stored = [0] ∧ c.lib.freed = []) (by decide +kernel)
  have hone := (hall c hr).all hd 0 (by rw [hst]; exact List.mem_singleton_self 0)
  rw [hf] at hone
  cases hone

end BaseCom.Mysql
