import BaseCom.Mysql.Cursor

/-! What the user of a connection is told, over any sequence of `Execute` and `GetValue`. A
report says it in terms of what became of the attempts, without retry, cursor or library. The
last error is that of the last attempt that failed, and stays when a later one succeeds. -/

namespace BaseCom.Mysql

open Transition

variable {fields : ℕ}

/-! ### The report -/

/-- `err` is what the last failed attempt has left; `rows` are those of the last attempt, if it
had a result set, and `asked` that `GetValue` has been called for them. -/
structure Report (fields : ℕ) where
  status : UInt32
  err : String
  rows : Option (List (MysqlRow fields))
  asked : Bool

namespace Report

/-- Before any `Execute`. -/
def blank (status : UInt32) : Report fields := { status, err := "", rows := none, asked := false }

def attempt (r : Report fields) (a : Attempt (MysqlRes fields)) : Report fields where
  status := a.errno
  err := a.failure.elim r.err Failure.error
  rows := a.result.map MysqlRes.rows
  asked := false

/-- A second attempt follows a first that failed. -/
def execute (r : Report fields) (first second : Attempt (MysqlRes fields)) : Report fields :=
  if first.failure = none then r.attempt first else (r.attempt first).attempt second

/-- The cell, for the first who asks. There is no answer without rows. -/
def value (r : Report fields) (row : Int32) (column : Fin fields) : Option (Option Cell) :=
  r.rows.map fun rows =>
    if r.asked = true ∨ row < 0 then none
    else rows[row.toNatClampNeg]?.bind fun cells => cells column

def numRows (r : Report fields) : Option Int32 := r.rows.map fun rows => .ofNat rows.length

end Report

/-! ### The connection in use -/

/-- The other methods change nothing. A result set of fewer fields is one with null pointers
in the others. -/
inductive UseAct (fields : ℕ)
  | execute (query : String) (first second : Attempt (MysqlRes fields))
  | getValue (row : Int32) (column : Fin fields)

/-- A result set comes with the cursor at its first row. -/
def FromFirstRow (a : Attempt (MysqlRes fields)) : Prop := ∀ res ∈ a.result, res.cursor = 0

instance (a : Attempt (MysqlRes fields)) : Decidable (FromFirstRow a) :=
  inferInstanceAs (Decidable (∀ res ∈ _, _))

/-- `GetValue` is called only where there is a result set. -/
def Use.step (u : Use (MysqlRes fields)) : UseAct fields → Option (Use (MysqlRes fields))
  | .execute query first second =>
    if FromFirstRow first ∧ FromFirstRow second then some (u.execute query first second).2
    else none
  | .getValue row column =>
    (u.conn.getValue row column).map fun x => { u with conn := x.2 }

def usage (fields : ℕ) : Lts (Use (MysqlRes fields)) (UseAct fields) where
  init u := ∃ status, u.conn = .construct status
  step := Use.step

namespace Report

def note (r : Report fields) : UseAct fields → Report fields
  | .execute _ first second => r.execute first second
  | .getValue _ _ => { r with asked := true }

/-- The report on a sequence of calls. -/
def on (r : Report fields) (tr : List (Use (MysqlRes fields) × UseAct fields)) : Report fields :=
  tr.foldl (fun r p => r.note p.2) r

end Report

/-! ### Agreement -/

/-- The cursor is at the first row, or behind the last once a row was asked for. -/
structure Agrees (o : MysqlConnection (MysqlRes fields)) (r : Report fields) : Prop where
  status : o.status = r.status
  err : o.err = r.err
  rows : o.res.map MysqlRes.rows = r.rows
  cursor : ∀ res ∈ o.res, res.cursor = if r.asked then res.rows.length else 0

namespace Agrees

variable {o : MysqlConnection (MysqlRes fields)} {r : Report fields}
  {k : Server (MysqlRes fields)}

/-- An attempt that has succeeded. -/
theorem done (h : Agrees o r) {a : Attempt (MysqlRes fields)} (ha : a.failure = none)
    (hfirst : FromFirstRow a) : Agrees { o with res := a.result, status := 0 } (r.attempt a) where
  status := (a.errno_eq_zero_iff.mpr ha).symm
  err := by
    simp only [Report.attempt, ha, Option.elim_none]
    exact h.err
  rows := rfl
  cursor := hfirst

theorem failed {a : Attempt (MysqlRes fields)} (r : Report fields) (ha : a.failure ≠ none) :
    Agrees { res := a.result, status := a.errno, err := a.error } (r.attempt a) where
  status := rfl
  err := by
    obtain ⟨f, hf⟩ := Option.ne_none_iff_exists'.mp ha
    simp [Report.attempt, Attempt.error, hf]
  rows := rfl
  cursor := by
    obtain ⟨f, hf⟩ := Option.ne_none_iff_exists'.mp ha
    intro res hres
    have hnone : a.result = none := Attempt.result_of_failure hf
    rw [Option.mem_def, hnone] at hres
    cases hres

theorem execute (h : Agrees o r) (query : String) (hfirst : FromFirstRow k.now)
    (hsecond : FromFirstRow k.later) :
    let x := o.execute serverCalls query k
    Agrees x.2.1 (r.execute k.now k.later) ∧
      x.1 = decide ((r.execute k.now k.later).status = 0) := by
  have hzero : ∀ (r : Report fields) (a : Attempt (MysqlRes fields)),
      (r.attempt a).status = 0 ↔ a.failure = none := fun _ a => a.errno_eq_zero_iff
  rw [MysqlConnection.execute, MysqlConnection.executeLoop_eq]
  unfold Report.execute
  by_cases hn : k.now.failure = none
  · rw [if_pos hn, if_pos hn]
    exact ⟨h.done hn hfirst, (decide_eq_true ((hzero r _).mpr hn)).symm⟩
  · have hnow : (o.retried query k).2.now = k.later := rfl
    rw [if_neg hn, if_neg hn, if_pos (Nat.le_refl 1), MysqlConnection.executeLoop_eq, hnow,
      if_neg (by decide : ¬ 1 + 1 ≤ 1)]
    have hr : Agrees (o.retried query k).1 (r.attempt k.now) := failed r hn
    by_cases hl : k.later.failure = none
    · rw [if_pos hl]
      exact ⟨hr.done hl hsecond, (decide_eq_true ((hzero _ _).mpr hl)).symm⟩
    · rw [if_neg hl]
      exact ⟨failed _ hl, (decide_eq_false fun hz => hl ((hzero _ _).mp hz)).symm⟩

/-- What a call of `GetValue` returns, and that no later call for the same rows returns one. -/
theorem getValue (h : Agrees o r) (row : Int32) (column : Fin fields) :
    (o.getValue row column).map Prod.fst = r.value row column ∧
      ∀ x ∈ o.getValue row column, Agrees x.2 { r with asked := true } := by
  cases hres : o.res with
  | none =>
    have hrows : r.rows = none := by rw [← h.rows, hres, Option.map_none]
    have hget : o.getValue row column = none := by
      unfold MysqlConnection.getValue
      rw [hres, Option.map_none]
    rw [hget, Report.value, hrows]
    exact ⟨rfl, nofun⟩
  | some res =>
    have hrows : r.rows = some res.rows := by rw [← h.rows, hres, Option.map_some]
    have hcursor := h.cursor res hres
    cases hasked : r.asked with
    | true =>
      rw [hasked, if_pos rfl] at hcursor
      rw [MysqlConnection.getValue_later hres hcursor]
      refine ⟨by simp [Report.value, hasked, hrows], ?_⟩
      rintro x ⟨⟩
      refine ⟨h.status, h.err, h.rows, fun res' hm => ?_⟩
      rw [hres] at hm
      cases hm
      exact hcursor
    | false =>
      rw [hasked] at hcursor
      rw [MysqlConnection.getValue_first hres hcursor]
      constructor
      · unfold MysqlRes.stored Report.value
        rw [hasked, hrows, Option.map_some, Option.map_some, Option.some.injEq]
        rcases Int32.lt_or_le row 0 with hneg | hnonneg
        · rw [if_neg (Int32.not_le.mpr hneg), if_pos (.inr hneg)]
        · rw [if_pos hnonneg, if_neg (by simp [Int32.not_lt.mpr hnonneg])]
      · rintro x ⟨⟩
        refine ⟨h.status, h.err, hrows.symm, fun res' hm => ?_⟩
        cases hm
        rfl

end Agrees

/-- What the methods tell is what the report says, after any sequence of calls and whatever
became of their attempts. `Rows` and `GetValue` are defined where it has rows, and `Execute`
returns true exactly if its last attempt succeeded. -/
theorem told_as_reported {status : UInt32} {u₀ u : Use (MysqlRes fields)}
    {tr : List (Use (MysqlRes fields) × UseAct fields)} (hi : u₀.conn = .construct status)
    (hr : Run (usage fields) u₀ tr u) :
    let r := (Report.blank status).on tr
    u.conn.status = r.status ∧ u.conn.err = r.err ∧ u.conn.rows = r.numRows ∧
      (∀ row column, (u.conn.getValue row column).map Prod.fst = r.value row column) ∧
      ∀ query first second, FromFirstRow first → FromFirstRow second →
        (u.execute query first second).1 = decide ((r.execute first second).status = 0) := by
  intro r
  have h : Agrees u.conn r := by
    induction hr with
    | refl =>
      rw [hi]
      exact ⟨rfl, rfl, rfl, nofun⟩
    | @tail v w tr l _ hk ih =>
      show Agrees w.conn ((Report.blank status).on (tr ++ [(v, l)]))
      rw [Report.on, List.foldl_append]
      cases l with
      | execute query first second =>
        obtain ⟨⟨h₁, h₂⟩, hw⟩ := Option.ite_none_right_eq_some.mp hk
        cases hw
        exact (ih.execute (k := v.lib.ready first second) query h₁ h₂).1
      | getValue row column =>
        obtain ⟨x, hx, rfl⟩ := Option.map_eq_some_iff.mp hk
        exact (ih.getValue row column).2 x hx
  refine ⟨h.status, h.err, ?_, fun row column => (h.getValue row column).1, ?_⟩
  · unfold MysqlConnection.rows Report.numRows
    rw [← h.rows]
    cases u.conn.res with
    | none => rfl
    | some res => rfl
  · intro query first second h₁ h₂
    exact (h.execute (k := u.lib.ready first second) query h₁ h₂).2

/-- The connection is lost once, and the rows come at the second attempt. -/
def lostOnce : List (UseAct 1) := [
  .execute "SELECT a FROM t"
    (.unreached ⟨2006, "MySQL server has gone away", by decide⟩) (.done (some twoRows)),
  .getValue 0 0]

/-- The call has succeeded, and `GetError` has an error to tell. -/
theorem told_as_reported_lost_once : ∃ u tr, Run (usage 1) ⟨.construct 0, twoRowServer⟩ tr u ∧
    u.conn.status = 0 ∧ u.conn.err = "MySQL server has gone away" ∧
    (u.conn.getValue 1 0).map Prod.fst = some none := by
  obtain ⟨u, hr, -⟩ := exists_run_of_exec (S := usage 1) ⟨.construct 0, twoRowServer⟩ lostOnce
    (P := fun _ => True) (by decide +kernel)
  obtain ⟨hstatus, herr, -, hget, -⟩ := told_as_reported rfl hr
  exact ⟨u, _, hr, hstatus.trans (by decide +kernel), herr.trans (by decide +kernel),
    (hget 1 0).trans (by decide +kernel)⟩

end BaseCom.Mysql
