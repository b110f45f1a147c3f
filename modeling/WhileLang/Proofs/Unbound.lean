import WhileLang.Proofs.Calls
import WhileLang.Proofs.Frame

/-! Names that a run misses. A step that fails for want of a binding has the variable
before it, and the variables that a run comes to have before it are those of the
program and those that bindings lead to. Bindings are never lost, so what is missing
at the failure was missing from the start; and a program whose names are all bound,
those in the bindings included, misses none. -/

namespace WhileLang

/-- Either engine, begun on `s` in `env`, returns the fault and leaves an environment behind: the evaluator, or a machine
with any limit at any request that it comes to. -/
inductive Stmt.Returns (env : Env) (s : Stmt) : Fault → Env → Prop where
  | exec {fuel : Nat} {f : Fault} {env' : Env} : s.exec fuel env = some ⟨.error f, env'⟩ → Returns env s f env'
  | step {config : Config} {asked : List Request} {n : Nat} {m m' : Machine Stmt} {f : Fault} :
    Machine.History (Machine.start s env config) asked n m → m.step = (m', .error (.fault f)) → Returns env s f m'.env
  | run {config : Config} {asked : List Request} {n : Nat} {m : Machine Stmt} {fuel : Nat} {sink : Sink}
      {r : Machine.Ran Stmt} {f : Fault} : Machine.History (Machine.start s env config) asked n m →
    m.run fuel sink = some r →
    r.result = .error (.fault f) → Returns env s f r.machine.env

section
variable {env env' : Env} {s s' : Stmt} {f : Fault} {x : Ident} {V : Set Ident} {k : Nat}

/-- All of these are the same: so many reductions, and then one that fails. -/
theorem Stmt.Returns.reduct (h : s.Returns env f env') :
    ∃ n s', Node.reduct? n env s = some (s', env') ∧ (s'.step env').result = .error f := by
  cases h with
  | exec h =>
    obtain ⟨n, hn⟩ := Stmt.executes_of_exec h
    obtain ⟨s', hs', -, hstep⟩ := (Stmt.executes_error_iff.1 hn).last_step
    exact ⟨n, s', hs', congrArg Outcome.result hstep⟩
  | @step config asked n m m' f hm hs =>
    have hcases := Machine.step_cases m
    rw [hs] at hcases
    cases hcases with
    | fault _ hstep => exact ⟨n, m.node, (Machine.after_iff.1 hm.after).1, congrArg Outcome.result hstep⟩
  | @run config asked n m fuel sink r f hm hr hf =>
    obtain ⟨k, hk⟩ := Machine.serves_of_run hr
    have hn := Machine.after_trans hm.after hk.after
    obtain ⟨-, hstep⟩ := Machine.run_fault hr hf
    exact ⟨n + k, r.machine.node, (Machine.after_iff.1 hn).1, congrArg Outcome.result hstep⟩

theorem Stmt.unbound_of_step (h : (s.step env).result = .error (.unbound x)) : x ∈ s.vars ∧ env.get? x = none := by
  by_cases hr : s.reducible = true
  · cases Stmt.cause_of_step hr h with
    | unbound hx hnone => exact ⟨hx, hnone⟩
    | operation h => cases h
  · obtain rfl := Stmt.reducible_eq_false hr
    cases h

/-- Reductions stay inside a set of names that no binding leads out of. -/
theorem Stmt.vars_of_reduct (hV : env.Closed V) (hs : ∀ y ∈ s.vars, y ∈ V)
    (h : Node.reduct? k env s = some (s', env')) : ∀ y ∈ s'.vars, y ∈ V := by
  induction k generalizing env s with
  | zero =>
    cases h
    exact hs
  | succ k ih =>
    rcases hstep : s.step env with ⟨f | s₁, env₁⟩
    · rw [Node.reduct?_of_fault hstep] at h
      cases h
    · rw [Node.reduct?_of_ok hstep] at h
      have hvars := (Stmt.inherits_of_step (congrArg Outcome.result hstep)).vars V hV hs
      have hframed := s.step_framed env
      rw [hstep] at hframed
      exact ih (fun y hy z hz => hV y hy z (hframed.reads hz)) hvars h

theorem Stmt.Returns.missing (h : s.Returns env (.unbound x) env') (hV : env.Closed V) (hs : ∀ y ∈ s.vars, y ∈ V) :
    x ∈ V ∧ env.get? x = none ∧ env'.get? x = none := by
  obtain ⟨n, s', hred, hstep⟩ := h.reduct
  obtain ⟨hx, hnone⟩ := Stmt.unbound_of_step hstep
  refine ⟨Stmt.vars_of_reduct hV hs hred x hx, ?_, hnone⟩
  have hkept := (Stmt.reduct_framed hred).kept x
  rw [hnone] at hkept
  simpa using hkept

end

/-- A program whose names are all bound, in the bindings too, never misses one. And a name that is missed was never bound,
and stands in the program or in a binding. -/
theorem missed_names_were_never_bound (s : Stmt) (env : Env) :
    (∀ V : Set Ident, (∀ x ∈ V, ∃ e, env.get? x = some e) → (∀ x ∈ s.vars, x ∈ V) →
      (∀ x ∈ V, ∀ e, env.get? x = some e → ∀ y ∈ e.vars, y ∈ V) → ∀ x env', ¬ s.Returns env (.unbound x) env') ∧
    ∀ x env', s.Returns env (.unbound x) env' →
      env.get? x = none ∧ env'.get? x = none ∧ (x ∈ s.vars ∨ ∃ y e, env.get? y = some e ∧ x ∈ e.vars) := by
  constructor
  · intro V hbound hreads hclosed x env' h
    have hV : env.Closed V := by
      rintro y hy z ⟨e, he, hz⟩
      exact hclosed y hy e he z hz
    obtain ⟨hx, hnone, -⟩ := h.missing hV hreads
    obtain ⟨e, he⟩ := hbound x hx
    rw [hnone] at he
    cases he
  · intro x env' h
    -- what the program and the bindings have in them is a set that no binding leads out of
    let V : Set Ident := fun y => y ∈ s.vars ∨ ∃ z, env.Reads z y
    have hV : env.Closed V := fun y _ z hz => .inr ⟨y, hz⟩
    obtain ⟨hx, hnone, hnone'⟩ := h.missing hV fun y hy => .inl hy
    exact ⟨hnone, hnone', hx⟩

/-- The variable `x` leads to `y`. Where `y` is bound, nothing is missed; where it is not, it is missed once the first
assignment has been made. -/
theorem missed_behind_a_binding :
    let s : Stmt := .seq (.assign "z" (.lit (.num 1))) (.assign "w" (.binary .add (.var "z") (.var "x")))
    let env : Env := (Dict.empty.insert "x" (.binary .mul (.var "y") (.lit (.num 2)))).insert "z" (.lit (.num 0))
    let full : Env := env.insert "y" (.lit (.num 4))
    let env' : Env := env.insert "z" (.lit (.num 1))
    let V : Set Ident := fun x => x = "x" ∨ x = "y" ∨ x = "z"
    ((∀ x ∈ V, ∃ e, full.get? x = some e) ∧ (∀ x ∈ s.vars, x ∈ V) ∧
      (∀ x ∈ V, ∀ e, full.get? x = some e → ∀ y ∈ e.vars, y ∈ V) ∧ ∀ x env', ¬ s.Returns full (.unbound x) env') ∧
    s.Returns env (.unbound "y") env' ∧ env.get? "y" = none ∧ env'.get? "y" = none ∧
      ("y" ∈ s.vars ∨ ∃ x e, env.get? x = some e ∧ "y" ∈ e.vars) := by
  intro s env full env' V
  have hbound : ∀ x ∈ V, ∃ e, full.get? x = some e := by
    rintro x (rfl | rfl | rfl) <;> exact ⟨_, rfl⟩
  have hreads : ∀ x ∈ s.vars, x ∈ V := by
    intro x hx
    have hx : x = "z" ∨ x = "x" := by simpa [s, Stmt.vars, Expr.vars] using hx
    exact hx.elim (fun h => .inr (.inr h)) .inl
  have hclosed : ∀ x ∈ V, ∀ e, full.get? x = some e → ∀ y ∈ e.vars, y ∈ V := by
    rintro x (rfl | rfl | rfl) e he y hy
    · obtain rfl : Expr.binary .mul (.var "y") (.lit (.num 2)) = e := Option.some.inj he
      exact .inr (.inl (by simpa [Expr.vars] using hy))
    · obtain rfl : Expr.lit (.num 4) = e := Option.some.inj he
      simp [Expr.vars] at hy
    · obtain rfl : Expr.lit (.num 0) = e := Option.some.inj he
      simp [Expr.vars] at hy
  have hreturns : s.Returns env (.unbound "y") env' :=
    .exec (show s.exec 9 env = some ⟨.error (.unbound "y"), env'⟩ from rfl)
  exact ⟨⟨hbound, hreads, hclosed, (missed_names_were_never_bound s full).1 V hbound hreads hclosed⟩, hreturns,
    (missed_names_were_never_bound s env).2 "y" env' hreturns⟩

end WhileLang
