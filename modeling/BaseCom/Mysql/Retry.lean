import BaseCom.Mysql.Connection

/-! How often the server executes a statement. `Execute` tries again after any error, and so
also after one that came when the statement had been executed already. -/

namespace BaseCom.Mysql

variable {ρ : Type*}

namespace Server

/-- The executions of a statement in one call of `Execute`. -/
def executions (k : Server ρ) : ℕ := (k.tries.filter Attempt.executed).length

/-- The first attempt is executed and reports an error, and the second is executed too. -/
def ExecutedTwice (k : Server ρ) : Prop :=
  k.now.executed = true ∧ k.now.failure ≠ none ∧ k.later.executed = true

instance (k : Server ρ) : Decidable k.ExecutedTwice := inferInstanceAs (Decidable (_ ∧ _ ∧ _))

variable (k : Server ρ)

/-- An attempt that reports no error has been executed. -/
theorem executed_of_done {a : Attempt ρ} (h : a.failure = none) : a.executed = true := by
  cases a with
  | done res => rfl
  | unreached f | queryFails f | storeFails f => cases h

theorem executions_of_done (h : k.now.failure = none) : k.executions = 1 := by
  have htries : k.tries = [k.now] := if_pos h
  simp [executions, htries, executed_of_done h]

theorem executions_of_failure (h : k.now.failure ≠ none) :
    k.executions = (if k.now.executed then 1 else 0) + if k.later.executed then 1 else 0 := by
  have htries : k.tries = [k.now, k.later] := if_neg h
  cases hn : k.now.executed <;> cases hl : k.later.executed <;>
    simp [executions, htries, hn, hl]

theorem executions_le : k.executions ≤ 2 := by
  by_cases h : k.now.failure = none
  · rw [k.executions_of_done h]
    omega
  · rw [k.executions_of_failure h]
    split_ifs <;> omega

theorem executions_eq_two_iff : k.executions = 2 ↔ k.ExecutedTwice := by
  unfold ExecutedTwice
  by_cases h : k.now.failure = none
  · rw [k.executions_of_done h]
    simp [h]
  · rw [k.executions_of_failure h]
    cases k.now.executed <;> cases k.later.executed <;> simp [h]

/-- If the last attempt reports no error, the statement has been executed. -/
theorem executions_pos (h : k.last.failure = none) : 0 < k.executions := by
  by_cases hn : k.now.failure = none
  · rw [k.executions_of_done hn]
    omega
  · have hlast : k.last = k.later := if_neg hn
    rw [hlast] at h
    rw [k.executions_of_failure hn, executed_of_done h]
    simp

end Server

/-- The server executes a statement at most twice, at least once if `Execute` returns true,
and more than once exactly if it executed the first attempt, which nevertheless reported an
error, and the second. -/
theorem executed_at_most_once_unless (query : String) (o : MysqlConnection ρ) (k : Server ρ) :
    ∃ n, (o.execute serverCalls query k).2.2.executed = k.executed ++ List.replicate n query ∧
      n ≤ 2 ∧ ((o.execute serverCalls query k).1 = true → 1 ≤ n) ∧ (1 < n ↔ k.ExecutedTwice) := by
  have hx := o.execute_executed query k
  refine ⟨k.executions, ?_, k.executions_le, fun hret => ?_, ?_⟩
  · rw [hx.executed, Server.executions, ← List.map_const']
  · rw [hx.ret, decide_eq_true_eq] at hret
    exact k.executions_pos hret
  · have hle := k.executions_le
    rw [← k.executions_eq_two_iff]
    omega

/-- The connection is lost when the statement has been executed. -/
def lostAcknowledgement : Server ℕ where
  now := .queryFails ⟨2013, "Lost connection to MySQL server during query", by decide⟩
  later := .done none
  errno := 0
  error := ""
  executed := []
  stored := []
  freed := []

/-- A row is inserted twice, and `Execute` returns true. -/
theorem executed_again_after_lost_acknowledgement :
    ¬ ∀ (query : String) (o : MysqlConnection ℕ) (k : Server ℕ),
      let r := o.execute serverCalls query k
      ∃ n, r.2.2.executed = k.executed ++ List.replicate n query ∧ n ≤ 1 ∧
        (r.1 = true → n = 1) := by
  intro hall
  obtain ⟨n, hn, hle, -⟩ := hall "INSERT INTO t VALUES (1)" (.construct 0) lostAcknowledgement
  have hx := (MysqlConnection.construct 0).execute_executed "INSERT INTO t VALUES (1)"
    lostAcknowledgement
  have htwice : lostAcknowledgement.executions = 2 := by decide
  have hlen := congrArg List.length (List.append_cancel_left (hx.executed.symm.trans hn))
  rw [List.length_map, List.length_replicate] at hlen
  have hn2 : 2 = n := htwice.symm.trans hlen
  omega

end BaseCom.Mysql
