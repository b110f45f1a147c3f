import WhileLang.Proofs.Reducts

/-! The two engines can stand in for each other. Reductions may be broken off at any
point and the rest be left to evaluation: a statement and its reducts have one
outcome, also where they fail or never end. For expressions the machine and the
evaluator agree on values, on faults and on running forever. -/

namespace WhileLang

/-- Two executions have one outcome: both succeed or both fail, in the same way and with the same environment left
behind, or neither ends. -/
inductive Stmt.SameOutcome (env₁ : Env) (s₁ : Stmt) (env₂ : Env) (s₂ : Stmt) : Prop where
  | ok {env' : Env} : (∃ fuel, s₁.exec fuel env₁ = some ⟨.ok (), env'⟩) →
    (∃ fuel, s₂.exec fuel env₂ = some ⟨.ok (), env'⟩) → SameOutcome env₁ s₁ env₂ s₂
  | fault {f : Fault} {env' : Env} : (∃ fuel, s₁.exec fuel env₁ = some ⟨.error f, env'⟩) →
    (∃ fuel, s₂.exec fuel env₂ = some ⟨.error f, env'⟩) → SameOutcome env₁ s₁ env₂ s₂
  | never : (∀ fuel, s₁.exec fuel env₁ = none) → (∀ fuel, s₂.exec fuel env₂ = none) → SameOutcome env₁ s₁ env₂ s₂

section
variable {env env' : Env} {s s' : Stmt} {o : Outcome Unit} {k n : Nat}

/-- The rules give a reduct the outcomes of the statement it comes from, `k` reductions later. -/
theorem Stmt.executes_reduct_iff (h : Node.reduct? k env s = some (s', env')) :
    (∃ n, s'.Executes env' o n) ↔ ∃ n, s.Executes env o n := by
  simp only [Stmt.executes_iff_ends]
  constructor
  · rintro ⟨n, hn⟩
    exact ⟨k + n, (ends_reduct_iff h).2 hn⟩
  · rintro ⟨n, hn⟩
    -- the run cannot have ended before the reduct was reached
    obtain ⟨i, rfl⟩ := Nat.exists_eq_add_of_le (hn.le h)
    exact ⟨i, (ends_reduct_iff h).1 hn⟩

theorem Stmt.SameOutcome.of_executes {env₁ env₂ : Env} {s₁ s₂ : Stmt}
    (h : ∀ o, (∃ n, s₁.Executes env₁ o n) ↔ ∃ n, s₂.Executes env₂ o n) : SameOutcome env₁ s₁ env₂ s₂ := by
  by_cases hends : ∃ o n, s₁.Executes env₁ o n
  · obtain ⟨⟨f | u, env'⟩, hn⟩ := hends
    · exact .fault (Stmt.exec_iff.2 hn) (Stmt.exec_iff.2 ((h _).1 hn))
    · exact .ok (Stmt.exec_iff.2 hn) (Stmt.exec_iff.2 ((h _).1 hn))
  · refine .never ?_ ?_ <;> intro fuel <;> rw [Option.eq_none_iff_forall_ne_some] <;> intro o ho
    · exact hends ⟨o, Stmt.executes_of_exec ho⟩
    · exact hends ⟨o, (h o).2 (Stmt.executes_of_exec ho)⟩

end

/-- Evaluation may take over after any number of reductions, and a loop is its own unrolling to it. -/
theorem reducts_keep_outcome :
    (∀ (k : Nat) (s s' : Stmt) (env env' : Env), Node.reduct? k env s = some (s', env') →
      Stmt.SameOutcome env' s' env s) ∧
    ∀ (c : Expr) (body : Stmt) (env : Env),
      Stmt.SameOutcome env (.loop c body) env (.ite c (.seq body (.loop c body)) .skip) := by
  constructor
  · intro k s s' env env' h
    exact .of_executes fun o => Stmt.executes_reduct_iff h
  · intro c body env
    have h : Node.reduct? 1 env (Stmt.loop c body) = some (.ite c (.seq body (.loop c body)) .skip, env) := rfl
    exact .of_executes fun o => (Stmt.executes_reduct_iff h).symm

/-- A loop broken off right after its first assignment, where the environment is no longer the first one. -/
theorem loop_left_after_assignment :
    let next : Stmt := .assign "x" (.binary .add (.var "x") (.lit (.num 1)))
    let loop : Stmt := .loop (.binary .lt (.var "x") (.lit (.num 1))) next
    let env : Env := Dict.empty.insert "x" (.binary .mul (.lit (.num 0)) (.lit (.num 5)))
    let env' : Env := Dict.empty.insert "x" (.lit (.num 1))
    Node.reduct? 9 env loop = some (.seq .skip loop, env') ∧ Stmt.SameOutcome env' (.seq .skip loop) env loop := by
  intro next loop env env'
  have h : Node.reduct? 9 env loop = some (.seq .skip loop, env') := rfl
  exact ⟨h, reducts_keep_outcome.1 9 loop (.seq .skip loop) env env' h⟩

section
variable {env : Env} {e : Expr} {n : Nat}

theorem Expr.eval_iff_ends {w : Except Fault Value} :
    (∃ fuel, e.eval fuel env = some w) ↔ ∃ n, Ends n env e ⟨w.map .lit, env⟩ := by
  rw [Expr.eval_iff]
  simp only [Expr.evaluates_iff_ends]

/-- The evaluator has no answer exactly when the reductions have no end. -/
theorem Expr.eval_none_iff : (∀ fuel, e.eval fuel env = none) ↔
    ∀ n, ∃ e' env', Node.reduct? n env e = some (e', env') := by
  simp only [Option.eq_none_iff_forall_ne_some]
  constructor
  · intro h n
    refine (ends_or_reduct n env e).resolve_left ?_
    rintro ⟨k, o, -, hk⟩
    obtain ⟨w, -, hw⟩ := Expr.evaluates_of_ends hk
    obtain ⟨fuel, hf⟩ := hw.eval
    exact h fuel w hf
  · intro h fuel w hw
    obtain ⟨n, hn⟩ := Expr.evaluates_of_eval hw
    obtain ⟨e', env', he⟩ := h (n + 1)
    exact absurd (hn.ends.le he) (by omega)

end

/-- The machine reaches the value that the evaluator gives, is stuck with the fault that it gives, and goes on forever
where it gives neither. A machine that has reached a literal is finished and not stuck. -/
theorem eval_agrees_with_machine (e : Expr) (env : Env) :
    (∀ v, (∃ fuel, e.eval fuel env = some (.ok v)) ↔
      ∃ n, (Machine.start e env ⟨none⟩).after n = some ⟨.lit v, env, ⟨none⟩, .ofNat n⟩) ∧
    (∀ f, (∃ fuel, e.eval fuel env = some (.error f)) ↔
      ∃ n m, (Machine.start e env ⟨none⟩).after n = some m ∧ m.reducible = true ∧
        m.step = (m, .error (.fault f))) ∧
    ((∀ fuel, e.eval fuel env = none) ↔ ∀ n, ∃ m, (Machine.start e env ⟨none⟩).after n = some m) := by
  refine ⟨fun v => ?_, fun f => ?_, ?_⟩
  · rw [Expr.eval_iff_ends]
    constructor
    · rintro ⟨n, hn⟩
      exact ⟨n, (Machine.ends_ok_iff.1 hn).1⟩
    · rintro ⟨n, hn⟩
      exact ⟨n, Machine.ends_ok_iff.2 ⟨hn, rfl⟩⟩
  · rw [Expr.eval_iff_ends]
    constructor
    · rintro ⟨n, hn⟩
      obtain ⟨m, hm, hr, -, hs⟩ := Machine.ends_error_iff.1 hn
      exact ⟨n, m, hm, hr, hs⟩
    · rintro ⟨n, m, hm, hr, hs⟩
      obtain rfl := Node.env_of_reduct (Machine.after_iff.1 hm).1
      exact ⟨n, Machine.ends_error_iff.2 ⟨m, hm, hr, rfl, hs⟩⟩
  · rw [Expr.eval_none_iff]
    refine forall_congr' fun n => ?_
    constructor
    · rintro ⟨e', env', he⟩
      refine ⟨⟨e', env', ⟨none⟩, .ofNat n⟩, Machine.after_iff.2 ⟨he, rfl, (UInt64.zero_add _).symm, ?_⟩⟩
      simp [Machine.start]
    · rintro ⟨m, hm⟩
      exact ⟨m.node, m.env, (Machine.after_iff.1 hm).1⟩

end WhileLang
