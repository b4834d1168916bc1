import BaseCom.Mysql.Connection
import Mathlib.Algebra.Order.Ring.Nat

/-! `GetValue`. It fetches the rows of a stored result set until there is none left, and then
picks one of those it has fetched. The cursor of the result set is never moved back, so only
the first call after `Execute` has any rows to pick from. -/

namespace BaseCom.Mysql

open Transition

/-- The value of a cell; SQL `NULL` is a null pointer. -/
abbrev Cell := List UInt8

/-- `MYSQL_ROW` of a result set with so many fields. -/
abbrev MysqlRow (fields : ℕ) := Fin fields → Option Cell

/-- A stored result set, with the number of rows fetched so far. A vector can hold pointers
to all its rows. -/
structure MysqlRes (fields : ℕ) where
  rows : List (MysqlRow fields)
  cursor : ℕ
  storable : rows.length < 2 ^ 61

namespace MysqlRes

variable {fields : ℕ}

/-- `mysql_fetch_row`. -/
def mysqlFetchRow (res : MysqlRes fields) : Option (MysqlRow fields) × MysqlRes fields :=
  match res.rows[res.cursor]? with
  | some row => (some row, { res with cursor := res.cursor + 1 })
  | none => (none, res)

theorem mysqlFetchRow_some {res : MysqlRes fields} {row : MysqlRow fields}
    {next : MysqlRes fields} (h : res.mysqlFetchRow = (some row, next)) :
    res.rows[res.cursor]? = some row ∧ next = { res with cursor := res.cursor + 1 } := by
  unfold mysqlFetchRow at h
  split at h
  · next r hr =>
    obtain ⟨h₁, h₂⟩ := Prod.mk.inj h
    exact ⟨hr.trans h₁, h₂.symm⟩
  · cases h

/-- The loop of `GetValue`: rows are fetched into `vec_rows` until there is none. -/
def fetchRows (res : MysqlRes fields) (vecRows : List (MysqlRow fields)) :
    List (MysqlRow fields) × MysqlRes fields :=
  match _h : res.mysqlFetchRow with
  | (some row, next) => fetchRows next (vecRows ++ [row])
  | (none, next) => (vecRows, next)
termination_by res.rows.length - res.cursor
decreasing_by
  obtain ⟨hr, rfl⟩ := mysqlFetchRow_some _h
  have hlt := (List.getElem?_eq_some_iff.mp hr).1
  simp only
  omega

/-- The value of `mysql_num_rows` as an `int`. -/
def numRows (res : MysqlRes fields) : Int32 := .ofNat res.rows.length

end MysqlRes

/-- An `int` where a `size_t` is wanted. -/
def sizeOfInt (i : Int32) : UInt64 := i.toInt64.toUInt64

namespace MysqlConnection

variable {fields : ℕ}

/-- `Rows`. With `res_` null it is undefined. -/
def rows (o : MysqlConnection (MysqlRes fields)) : Option Int32 := o.res.map MysqlRes.numRows

/-- `GetValue`: the cell, and the object afterwards. With `res_` null it is undefined. -/
def getValue (o : MysqlConnection (MysqlRes fields)) (row : Int32) (column : Fin fields) :
    Option (Option Cell × MysqlConnection (MysqlRes fields)) :=
  o.res.map fun res =>
    let (vecRows, res) := res.fetchRows []
    let o := { o with res := some res }
    if UInt64.ofNat vecRows.length ≤ sizeOfInt row then (none, o)
    else (vecRows[(sizeOfInt row).toNat]?.bind fun r => r column, o)

end MysqlConnection

/-! ### What the calls return -/

namespace MysqlRes

variable {fields : ℕ} (res : MysqlRes fields)

theorem fetchRows_eq (vecRows : List (MysqlRow fields)) (h : res.cursor ≤ res.rows.length) :
    res.fetchRows vecRows =
      (vecRows ++ res.rows.drop res.cursor, { res with cursor := res.rows.length }) := by
  induction hn : res.rows.length - res.cursor generalizing res vecRows with
  | zero =>
    have hc : res.cursor = res.rows.length := by omega
    have hnone : res.mysqlFetchRow = (none, res) := by
      simp [mysqlFetchRow, hc]
    rw [fetchRows]
    split
    · next hs =>
      rw [hnone] at hs
      cases hs
    · next hs =>
      rw [hnone] at hs
      cases hs
      rw [hc, List.drop_length, List.append_nil, ← hc]
  | succ n ih =>
    have hlt : res.cursor < res.rows.length := by omega
    have hsome : res.mysqlFetchRow =
        (some res.rows[res.cursor], { res with cursor := res.cursor + 1 }) := by
      simp [mysqlFetchRow, hlt]
    rw [fetchRows]
    split
    · next hs =>
      rw [hsome] at hs
      cases hs
      rw [ih _ _ (by simp only; omega) (by simp only; omega)]
      simp only [List.append_assoc, List.singleton_append]
      rw [List.drop_eq_getElem_cons hlt]
    · next hs =>
      rw [hsome] at hs
      cases hs

/-- The cell of a row that the result set has. -/
def stored (row : Int32) (column : Fin fields) : Option Cell :=
  if 0 ≤ row then res.rows[row.toNatClampNeg]?.bind fun r => r column else none

theorem stored_of_neg {row : Int32} (h : row < 0) (column : Fin fields) :
    res.stored row column = none := if_neg (Int32.not_le.mpr h)

end MysqlRes

theorem toNat_sizeOfInt_of_nonneg {i : Int32} (h : 0 ≤ i) :
    (sizeOfInt i).toNat = i.toNatClampNeg := by
  have h64 : 0 ≤ i.toInt64 := by
    rw [Int64.le_iff_toInt_le, Int32.toInt_toInt64]
    exact Int32.le_iff_toInt_le.mp h
  rw [sizeOfInt, Int64.toNat_toUInt64_of_le h64, Int32.toNatClampNeg_toInt64]

/-- A negative `int` is a huge `size_t`. -/
theorem toNat_sizeOfInt_of_neg {i : Int32} (h : i < 0) : 2 ^ 61 ≤ (sizeOfInt i).toNat := by
  have hneg : i.toInt < 0 := Int32.lt_iff_toInt_lt.mp h
  have hlow := i.le_toInt
  have hbits : (sizeOfInt i).toNat = i.toInt64.toBitVec.toNat := rfl
  have hcond := BitVec.toInt_eq_toNat_cond i.toInt64.toBitVec
  have hint : i.toInt64.toBitVec.toInt = i.toInt := i.toInt_toInt64
  rw [hint] at hcond
  rw [hbits]
  split_ifs at hcond <;> omega

namespace MysqlConnection

variable {fields : ℕ} {o : MysqlConnection (MysqlRes fields)} {res : MysqlRes fields}
  {row : Int32} {column : Fin fields}

/-- What a call that has fetched all rows picks. -/
theorem pick_eq (res : MysqlRes fields) (row : Int32) (column : Fin fields) :
    (if UInt64.ofNat res.rows.length ≤ sizeOfInt row then none
      else res.rows[(sizeOfInt row).toNat]?.bind fun r => r column) = res.stored row column := by
  have hbound := res.storable
  have hlen : (UInt64.ofNat res.rows.length).toNat = res.rows.length := by
    rw [UInt64.toNat_ofNat']
    exact Nat.mod_eq_of_lt (by omega)
  have hle : UInt64.ofNat res.rows.length ≤ sizeOfInt row ↔
      res.rows.length ≤ (sizeOfInt row).toNat := by rw [UInt64.le_iff_toNat_le, hlen]
  simp only [hle]
  rcases Int32.lt_or_le row 0 with hneg | hnonneg
  · have hhuge := toNat_sizeOfInt_of_neg hneg
    rw [if_pos (by omega), res.stored_of_neg hneg]
  · rw [toNat_sizeOfInt_of_nonneg hnonneg, MysqlRes.stored, if_pos hnonneg]
    split_ifs with hge
    · rw [List.getElem?_eq_none hge]
      rfl
    · rfl

/-- The first call fetches every row. -/
theorem getValue_first (hres : o.res = some res) (hc : res.cursor = 0) :
    o.getValue row column =
      some (res.stored row column,
        { o with res := some { res with cursor := res.rows.length } }) := by
  have hfetch := res.fetchRows_eq [] (by omega)
  rw [hc, List.drop_zero, List.nil_append] at hfetch
  unfold getValue
  simp only [hres, Option.map_some, hfetch]
  rw [← pick_eq res row column]
  split_ifs <;> rfl

/-- The calls after it fetch nothing. -/
theorem getValue_later (hres : o.res = some res) (hc : res.cursor = res.rows.length) :
    o.getValue row column = some (none, o) := by
  have hfetch := res.fetchRows_eq [] (by omega)
  rw [hc, List.drop_length, List.nil_append, ← hc] at hfetch
  have hnone : UInt64.ofNat ([] : List (MysqlRow fields)).length ≤ sizeOfInt row :=
    UInt64.le_iff_toNat_le.mpr (Nat.zero_le _)
  unfold getValue
  simp only [hres, Option.map_some, hfetch, if_pos hnone]
  rw [← hres]

/-- The cell of a row `0 ≤ row < Rows()`, and null for any other. -/
def cell (o : MysqlConnection (MysqlRes fields)) (row : Int32) (column : Fin fields) :
    Option Cell :=
  o.res.bind fun res => if 0 ≤ row ∧ row < res.numRows then res.stored row column else none

/-- The call returns the cell. -/
def ReturnsCell (o : MysqlConnection (MysqlRes fields)) (l : Int32 × Fin fields) : Prop :=
  (o.getValue l.1 l.2).map Prod.fst = some (o.cell l.1 l.2)

/-- The first call after `Execute` asks for a row below `Rows()` and any later call for one
that is not, unless the cell is null anyway. -/
def AsksOnce (o : MysqlConnection (MysqlRes fields)) (l : Int32 × Fin fields) : Prop :=
  ∀ res ∈ o.res, res.stored l.1 l.2 = none ∨ (res.cursor = 0 ↔ l.1 < res.numRows)

instance (o : MysqlConnection (MysqlRes fields)) (l : Int32 × Fin fields) :
    Decidable (o.AsksOnce l) :=
  inferInstanceAs (Decidable (∀ res ∈ _, _ ∨ (_ ↔ _)))

/-- Before the first call the cursor is at the first row, and after it behind the last. -/
def Whole (o : MysqlConnection (MysqlRes fields)) : Prop :=
  ∃ res, o.res = some res ∧ (res.cursor = 0 ∨ res.cursor = res.rows.length)

theorem Whole.getValue (h : o.Whole) (row : Int32) (column : Fin fields) :
    ∀ x ∈ o.getValue row column, x.2.Whole := by
  obtain ⟨res, hres, hc | hc⟩ := h
  · rw [getValue_first hres hc]
    rintro x ⟨⟩
    exact ⟨_, rfl, .inr rfl⟩
  · rw [getValue_later hres hc]
    rintro x ⟨⟩
    exact ⟨res, hres, .inr hc⟩

theorem Whole.returnsCell_iff (h : o.Whole) (l : Int32 × Fin fields) :
    o.ReturnsCell l ↔ o.AsksOnce l := by
  obtain ⟨row, column⟩ := l
  obtain ⟨res, hres, hc⟩ := h
  have hcell : o.cell row column =
      if row < res.numRows then res.stored row column else none := by
    simp only [cell, hres, Option.bind_some]
    rcases Int32.lt_or_le row 0 with hneg | hnonneg
    · rw [res.stored_of_neg hneg]
      split_ifs <;> rfl
    · simp only [hnonneg, true_and]
  have hasks : o.AsksOnce (row, column) ↔
      res.stored row column = none ∨ (res.cursor = 0 ↔ row < res.numRows) := by
    simp only [AsksOnce, hres, Option.mem_some_iff, forall_eq']
  have hempty : res.rows.length = 0 → res.stored row column = none := by
    intro h0
    rw [List.length_eq_zero_iff] at h0
    simp [MysqlRes.stored, h0]
  rw [hasks]
  unfold ReturnsCell
  rw [hcell]
  by_cases h0 : res.cursor = 0
  · rw [getValue_first hres h0]
    split_ifs with hlt <;> simp [h0, hlt]
  · have hend := hc.resolve_left h0
    rw [getValue_later hres hend]
    split_ifs with hlt <;> simp [h0, hlt, eq_comm]

end MysqlConnection

/-- The connection as a successful `Execute` has left it, with a result set at its first row. -/
def JustStored {fields : ℕ} (o : MysqlConnection (MysqlRes fields)) : Prop :=
  ∃ (query : String) (before : MysqlConnection (MysqlRes fields)) (k : Server (MysqlRes fields)),
    (before.execute serverCalls query k).1 = true ∧
      (before.execute serverCalls query k).2.1 = o ∧ ∃ res, o.res = some res ∧ res.cursor = 0

/-- `GetValue` called again and again after an `Execute`. -/
def reading (fields : ℕ) : Lts (MysqlConnection (MysqlRes fields)) (Int32 × Fin fields) where
  init := JustStored
  step o l := (o.getValue l.1 l.2).map Prod.snd

/-- After a successful `Execute` with a result set, every call of `GetValue` returns the cell
it asks for, and null for a row that is none of the `Rows()`, if and only if the first call
asks for a row below `Rows()` and every later one does not, unless the cell is null anyway. -/
theorem get_value_cell_iff {fields : ℕ} {o₀ o : MysqlConnection (MysqlRes fields)}
    {tr : List (MysqlConnection (MysqlRes fields) × (Int32 × Fin fields))}
    (hi : (reading fields).init o₀) (hr : Run (reading fields) o₀ tr o) :
    Always MysqlConnection.ReturnsCell tr ↔ Always MysqlConnection.AsksOnce tr := by
  have hwhole : o₀.Whole := by
    obtain ⟨_, _, _, -, -, res, hres, hc⟩ := hi
    exact ⟨res, hres, .inl hc⟩
  refine hr.always_congr (fun u l v hu _ => hu.returnsCell_iff l) ?_ hwhole
  intro u l v hu _ hk
  obtain ⟨x, hx, rfl⟩ := Option.map_eq_some_iff.mp hk
  exact hu.getValue l.1 l.2 x hx

/-- Two rows of one field. -/
def twoRows : MysqlRes 1 := ⟨[fun _ => some [49], fun _ => some [50]], 0, by decide⟩

/-- The server that answers with them. -/
def twoRowServer : Server (MysqlRes 1) :=
  ⟨.done (some twoRows), .done none, 0, "", [], [], []⟩

/-- The connection once it has them. -/
def twoRowConnection : MysqlConnection (MysqlRes 1) :=
  { res := some twoRows, status := 0, err := "" }

theorem justStored_twoRows : JustStored twoRowConnection := by
  have hx : (MysqlConnection.construct 0).execute serverCalls "SELECT a FROM t" twoRowServer =
      (true, twoRowConnection, twoRowServer.after "SELECT a FROM t" none) := by
    rw [MysqlConnection.execute, MysqlConnection.executeLoop_eq]
    rfl
  exact ⟨"SELECT a FROM t", .construct 0, twoRowServer, by rw [hx], by rw [hx], twoRows, rfl, rfl⟩

/-- One cell, and a row that is not there. -/
theorem get_value_cell_of_first_row : ∃ o tr, Run (reading 1) twoRowConnection tr o ∧
    tr.length = 2 ∧ (twoRowConnection.getValue 0 0).map Prod.fst = some (some [49]) ∧
      Always MysqlConnection.ReturnsCell tr := by
  obtain ⟨o, hr, -⟩ := exists_run_of_exec (S := reading 1) twoRowConnection [(0, 0), (2, 0)]
    (P := fun _ => True) (by decide +kernel)
  refine ⟨o, _, hr, by decide +kernel, by decide +kernel,
    (get_value_cell_iff justStored_twoRows hr).mpr ?_⟩
  unfold Always
  decide +kernel

/-- The second row is not found once the first has been asked for. -/
theorem second_cell_lost : ¬ ∀ (o : MysqlConnection (MysqlRes 1)) (l : Int32 × Fin 1),
    Reachable (reading 1) o → o.ReturnsCell l := by
  intro hall
  obtain ⟨o, hr, hget, hcell⟩ := exists_reachable_of_exec (S := reading 1) justStored_twoRows
    [(0, 0)] (P := fun o => (o.getValue 1 0).map Prod.fst = some none ∧ o.cell 1 0 = some [50])
    (by decide +kernel)
  have hsame : (o.getValue 1 0).map Prod.fst = some (o.cell 1 0) := hall o (1, 0) hr
  rw [hget, hcell] at hsame
  cases hsame

end BaseCom.Mysql
