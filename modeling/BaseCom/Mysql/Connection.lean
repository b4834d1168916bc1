import BaseCom.Transition.Run

/-! `MysqlConnection`: `Execute` with its retry, over any client library, and the library as
far as the class can tell. An attempt may fail before the server has the statement or after
the server has executed it; the error code, on which the retry is decided, does not say
which. -/

namespace BaseCom.Mysql

/-- The functions of the client library that `Execute` and the destructor call, each a
function of the library's state; `ρ` are the result sets. -/
structure MysqlCalls (κ ρ : Type*) where
  mysqlQuery (query : String) : κ → Int32 × κ
  mysqlStoreResult : κ → Option ρ × κ
  mysqlErrno : κ → UInt32
  mysqlError : κ → String
  mysqlPing : κ → Int32 × κ
  mysqlFreeResult (res : ρ) : κ → κ
  mysqlClose : κ → κ

/-- The data members. -/
structure MysqlConnection (ρ : Type*) where
  res : Option ρ
  status : UInt32
  err : String
  deriving DecidableEq

namespace MysqlConnection

variable {κ ρ : Type*}

/-- `MysqlConnection::MysqlConnection`, which does not set `status_`. -/
def construct (status : UInt32) : MysqlConnection ρ := { res := none, status, err := "" }

def success (o : MysqlConnection ρ) : Bool := decide (o.status = 0)

variable (calls : MysqlCalls κ ρ)

/-- The body of the loop up to `return true`. The result is false where it goes on. -/
def tryQuery (query : String) (o : MysqlConnection ρ) (k : κ) : Bool × MysqlConnection ρ × κ :=
  let k := match o.res with
    | some res => calls.mysqlFreeResult res k
    | none => k
  let (_, k) := calls.mysqlQuery query k
  let (res, k) := calls.mysqlStoreResult k
  let o := { o with res := res, status := calls.mysqlErrno k }
  (decide (o.status = 0), o, k)

/-- The `do` loop, with `retry` as it is before the body. -/
def executeLoop (query : String) (retry : ℕ) (o : MysqlConnection ρ) (k : κ) :
    Bool × MysqlConnection ρ × κ :=
  let (done, o, k) := tryQuery calls query o k
  if done then (true, o, k)
  else
    let o := { o with err := calls.mysqlError k }
    let (_, k) := calls.mysqlPing k
    if retry + 1 ≤ 1 then executeLoop query (retry + 1) o k else (o.success, o, k)
termination_by 1 - retry

def execute (query : String) (o : MysqlConnection ρ) (k : κ) : Bool × MysqlConnection ρ × κ :=
  executeLoop calls query 0 o k

/-- `MysqlConnection::~MysqlConnection`. -/
def destruct (k : κ) : κ := calls.mysqlClose k

end MysqlConnection

/-! ### The library and the server -/

/-- An error the library reports. -/
structure Failure where
  errno : UInt32
  error : String
  nonzero : errno ≠ 0
  deriving DecidableEq

/-- What becomes of one attempt: the statement does not reach the server, the server executes
it and `mysql_query` or `mysql_store_result` reports an error nevertheless, or the server
executes it and no error is reported. -/
inductive Attempt (ρ : Type*)
  | unreached (f : Failure)
  | queryFails (f : Failure)
  | storeFails (f : Failure)
  | done (res : Option ρ)
  deriving DecidableEq

namespace Attempt

variable {ρ : Type*}

def executed : Attempt ρ → Bool
  | .unreached _ => false
  | .queryFails _ | .storeFails _ | .done _ => true

def failure : Attempt ρ → Option Failure
  | .unreached f | .queryFails f | .storeFails f => some f
  | .done _ => none

/-- The result set; on an error there is none. -/
def result : Attempt ρ → Option ρ
  | .unreached _ | .queryFails _ | .storeFails _ => none
  | .done res => res

/-- What `mysql_errno` returns at the end of the attempt. -/
def errno (a : Attempt ρ) : UInt32 := a.failure.elim 0 Failure.errno

def error (a : Attempt ρ) : String := a.failure.elim "" Failure.error

theorem errno_eq_zero_iff (a : Attempt ρ) : a.errno = 0 ↔ a.failure = none := by
  unfold errno
  cases a.failure with
  | none => exact iff_of_true rfl rfl
  | some f => exact iff_of_false f.nonzero (by simp)

theorem result_of_failure {a : Attempt ρ} {f : Failure} (h : a.failure = some f) :
    a.result = none := by
  cases a with
  | done res => cases h
  | unreached f | queryFails f | storeFails f => rfl

end Attempt

/-- The library's last error, the attempt it is in and the one after that. What the server
has executed, and the result sets handed out and taken back, is history. -/
structure Server (ρ : Type*) where
  now : Attempt ρ
  later : Attempt ρ
  errno : UInt32
  error : String
  executed : List String
  stored : List ρ
  freed : List ρ

variable {ρ : Type*}

/-- `mysql_store_result` after a failed `mysql_query` has no result and leaves the error. -/
def serverCalls : MysqlCalls (Server ρ) ρ where
  mysqlQuery query k :=
    match k.now with
    | .unreached f => (1, { k with errno := f.errno, error := f.error })
    | .queryFails f =>
      (1, { k with errno := f.errno, error := f.error, executed := k.executed ++ [query] })
    | .storeFails _ | .done _ =>
      (0, { k with errno := 0, error := "", executed := k.executed ++ [query] })
  mysqlStoreResult k :=
    match k.now with
    | .unreached _ | .queryFails _ => (none, k)
    | .storeFails f => (none, { k with errno := f.errno, error := f.error })
    | .done res => (res, { k with errno := 0, error := "", stored := k.stored ++ res.toList })
  mysqlErrno k := k.errno
  mysqlError k := k.error
  mysqlPing k := (0, { k with now := k.later })
  mysqlFreeResult res k := { k with freed := k.freed ++ [res] }
  mysqlClose k := k

/-- The library, ready for two attempts. -/
def Server.ready (k : Server ρ) (first second : Attempt ρ) : Server ρ :=
  { k with now := first, later := second }

/-- The server after an attempt, made with `held` in `res_`. -/
def Server.after (k : Server ρ) (query : String) (held : Option ρ) : Server ρ :=
  { k with
    errno := k.now.errno
    error := k.now.error
    executed := k.executed ++ if k.now.executed then [query] else []
    stored := k.stored ++ k.now.result.toList
    freed := k.freed ++ held.toList }

/-- The attempts of a call of `Execute`. -/
def Server.tries (k : Server ρ) : List (Attempt ρ) :=
  if k.now.failure = none then [k.now] else [k.now, k.later]

/-- The attempt whose outcome it returns. -/
def Server.last (k : Server ρ) : Attempt ρ := if k.now.failure = none then k.now else k.later

namespace MysqlConnection

variable (query : String) (o : MysqlConnection ρ) (k : Server ρ)

theorem tryQuery_eq :
    tryQuery serverCalls query o k =
      (decide (k.now.failure = none), { o with res := k.now.result, status := k.now.errno },
        k.after query o.res) := by
  have hfree : (match o.res with
      | some res => serverCalls.mysqlFreeResult res k
      | none => k) = { k with freed := k.freed ++ o.res.toList } := by
    cases o.res with
    | none => simp
    | some res => rfl
  unfold tryQuery
  rw [hfree]
  obtain ⟨now, later, errno, error, executed, stored, freed⟩ := k
  cases now with
  | done res => simp [serverCalls, Server.after, Attempt.errno, Attempt.error, Attempt.failure,
      Attempt.result, Attempt.executed]
  | unreached f | queryFails f | storeFails f =>
    simp [serverCalls, Server.after, Attempt.errno, Attempt.error, Attempt.failure,
      Attempt.result, Attempt.executed, f.nonzero]

/-- The object and the server after an attempt that failed. -/
def retried : MysqlConnection ρ × Server ρ :=
  ({ res := k.now.result, status := k.now.errno, err := k.now.error },
    { k.after query o.res with now := k.later })

/-- One round of the loop. -/
theorem executeLoop_eq (retry : ℕ) :
    executeLoop serverCalls query retry o k =
      if k.now.failure = none then
        (true, { o with res := k.now.result, status := 0 }, k.after query o.res)
      else if retry + 1 ≤ 1 then
        executeLoop serverCalls query (retry + 1) (o.retried query k).1 (o.retried query k).2
      else (false, o.retried query k) := by
  conv_lhs => rw [executeLoop, tryQuery_eq]
  have hzero := k.now.errno_eq_zero_iff
  by_cases h : k.now.failure = none
  · simp [h, hzero.mpr h]
  · have hne : k.now.errno ≠ 0 := fun hz => h (hzero.mp hz)
    have hping : serverCalls.mysqlPing (k.after query o.res) = (0, (o.retried query k).2) := rfl
    simp [h, hping, retried, success, hne]
    rfl

/-- What a call of `Execute` leaves behind. -/
structure Executed (r : Bool × MysqlConnection ρ × Server ρ) : Prop where
  ret : r.1 = decide (k.last.failure = none)
  res : r.2.1.res = k.last.result
  executed : r.2.2.executed = k.executed ++ (k.tries.filter Attempt.executed).map fun _ => query
  stored : r.2.2.stored = k.stored ++ k.last.result.toList
  freed : r.2.2.freed = k.freed ++ o.res.toList

theorem executed_singleton (a : Attempt ρ) :
    ([a].filter Attempt.executed).map (fun _ => query) = if a.executed then [query] else [] := by
  cases hx : a.executed <;> simp [hx]

/-- The books after a second attempt, the first having failed. -/
theorem retried_books (h : k.now.failure ≠ none) :
    let k' := (o.retried query k).2.after query (o.retried query k).1.res
    k'.executed = k.executed ++ (k.tries.filter Attempt.executed).map (fun _ => query) ∧
      k'.stored = k.stored ++ k.last.result.toList ∧ k'.freed = k.freed ++ o.res.toList := by
  obtain ⟨f, hf⟩ := Option.ne_none_iff_exists'.mp h
  have hnone : k.now.result = none := Attempt.result_of_failure hf
  have hlast : k.last = k.later := if_neg h
  have htries : k.tries = [k.now] ++ [k.later] := if_neg h
  refine ⟨?_, ?_, ?_⟩
  · rw [htries, List.filter_append, List.map_append, executed_singleton, executed_singleton,
      ← List.append_assoc]
    rfl
  · simp [retried, Server.after, hlast, hnone]
  · simp [retried, Server.after, hnone]

theorem execute_executed : Executed query o k (o.execute serverCalls query k) := by
  rw [execute, executeLoop_eq]
  by_cases h : k.now.failure = none
  · have hlast : k.last = k.now := if_pos h
    have htries : k.tries = [k.now] := if_pos h
    rw [if_pos h]
    refine ⟨by rw [hlast, decide_eq_true h], by rw [hlast], ?_, by rw [hlast]; rfl, rfl⟩
    rw [htries, executed_singleton]
    rfl
  · obtain ⟨hexec, hstored, hfreed⟩ := o.retried_books query k h
    have hlast : k.last = k.later := if_neg h
    have hnow : (o.retried query k).2.now = k.later := rfl
    rw [if_neg h, if_pos (Nat.le_refl 1), executeLoop_eq, hnow, if_neg (by decide : ¬ 1 + 1 ≤ 1)]
    by_cases h' : k.later.failure = none
    · rw [if_pos h']
      exact ⟨by rw [hlast, decide_eq_true h'], by rw [hlast], hexec, hstored, hfreed⟩
    · rw [if_neg h']
      exact ⟨by rw [hlast, decide_eq_false h'], by rw [hlast]; rfl, hexec, hstored, hfreed⟩

end MysqlConnection

/-! ### A connection in use -/

/-- A connection with the library behind it. -/
structure Use (ρ : Type*) where
  conn : MysqlConnection ρ
  lib : Server ρ

/-- `Execute`, with what becomes of its attempts. -/
def Use.execute (u : Use ρ) (query : String) (first second : Attempt ρ) : Bool × Use ρ :=
  let (ret, conn, lib) := u.conn.execute serverCalls query (u.lib.ready first second)
  (ret, ⟨conn, lib⟩)

end BaseCom.Mysql
