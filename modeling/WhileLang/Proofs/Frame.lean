import WhileLang.Proofs.Reducts
import WhileLang.Proofs.Variables

/-! What running a statement can make of an environment. No name is lost, names that are
no target keep their bindings, and what is bound anew is a literal. One step binds at
most one name, none where it fails, and steps add up (`Framed.trans`). The evaluator
goes through its environments in larger strides and has no other ones, also on the
way to a fault or in a loop that never ends (`Stmt.Passes`). -/

namespace WhileLang

def Env.Settled (env : Env) : Prop := ∀ x e, env.get? x = some e → ∃ v, e = .lit v

/-- What a statement with the targets `xs` may make of an environment. -/
structure Env.Framed (xs : List Ident) (env env' : Env) : Prop where
  kept : ∀ x, (env.get? x).isSome → (env'.get? x).isSome
  untouched : ∀ x, x ∉ xs → env'.get? x = env.get? x
  values : ∀ x e, env'.get? x = some e → env.get? x = some e ∨ ∃ v, e = .lit v

namespace Env

variable {xs ys : List Ident} {env env' env₁ env₂ : Env}

theorem settled_empty : Settled .empty := by
  intro x e h
  simp [Dict.get?_empty] at h

theorem Settled.insert (h : env.Settled) (x : Ident) (v : Value) : Settled (env.insert x (.lit v)) := by
  intro y e hy
  rw [Dict.get?_insert] at hy
  split at hy
  · cases hy; exact ⟨v, rfl⟩
  · exact h y e hy

namespace Framed

theorem refl (xs : List Ident) (env : Env) : Framed xs env env :=
  ⟨fun _ h => h, fun _ _ => rfl, fun _ _ h => .inl h⟩

theorem trans (h : Framed xs env env₁) (h' : Framed xs env₁ env₂) : Framed xs env env₂ := by
  refine ⟨fun x hx => h'.kept x (h.kept x hx), fun x hx => (h'.untouched x hx).trans (h.untouched x hx), ?_⟩
  intro x e he
  rcases h'.values x e he with he₁ | hv
  · exact h.values x e he₁
  · exact .inr hv

theorem mono (h : Framed xs env env') (hxs : xs ⊆ ys) : Framed ys env env' :=
  ⟨h.kept, fun x hx => h.untouched x fun hmem => hx (hxs hmem), h.values⟩

theorem insert {x : Ident} (hx : x ∈ xs) (env : Env) (v : Value) : Framed xs env (env.insert x (.lit v)) := by
  refine ⟨fun y hy => ?_, fun y hy => ?_, fun y e he => ?_⟩
  · rw [Dict.get?_insert]
    split
    · rfl
    · exact hy
  · have hne : y ≠ x := fun h => hy (h ▸ hx)
    rw [Dict.get?_insert, if_neg hne]
  · rw [Dict.get?_insert] at he
    split at he
    · exact .inr ⟨v, (Option.some.inj he).symm⟩
    · exact .inl he

theorem settled (h : Framed xs env env') (hs : env.Settled) : env'.Settled := by
  intro x e he
  rcases h.values x e he with he | hv
  · exact hs x e he
  · exact hv

/-- A literal reads nothing, so bindings read no more than they did. -/
theorem reads {x y : Ident} (h : Framed xs env env') (hr : env'.Reads x y) : env.Reads x y := by
  obtain ⟨e, he, hy⟩ := hr
  rcases h.values x e he with he | ⟨v, rfl⟩
  · exact ⟨e, he, hy⟩
  · simp [Expr.vars] at hy

end Framed

end Env

/-- From literals every expression ends: a variable stands for one. -/
theorem Expr.evaluates_of_settled {env : Env} (hs : env.Settled) (e : Expr) : ∃ w n, e.Evaluates env w n := by
  refine Expr.evaluates_of_vars fun x _ => ?_
  cases hx : env.lookup x with
  | error f => exact ⟨.error f, 0, .unbound hx⟩
  | ok e =>
    obtain ⟨v, rfl⟩ := hs x e (Env.lookup_eq_ok hx)
    exact ⟨.ok v, 0 + 1, .var hx (.lit v)⟩

/-! ### One step -/

/-- The assignment of a literal at the head is carried out: such a step cannot fail. -/
theorem Stmt.step_of_head {s : Stmt} {x : Ident} {v : Value} (h : s.head = .assign x (.lit v)) (env : Env) :
    ∃ s', s.step env = ⟨.ok s', env.insert x (.lit v)⟩ := by
  induction s with
  | assign y e =>
    obtain ⟨rfl, rfl⟩ := Stmt.assign.inj h
    exact ⟨.skip, rfl⟩
  | seq a b iha _ =>
    obtain ⟨a', ha⟩ := iha h
    have hr : a.reducible = true := LawfulNode.reducible_of_step (ν := Stmt) ha
    refine ⟨.seq a' b, ?_⟩
    rw [Stmt.step_seq, if_pos hr, ha]
    rfl
  | _ => cases h

/-- A step that fails changes nothing, and one that succeeds has bound at most one name: the target of an assignment
at the head, to the literal that stands there. A machine that does not make its step is left as it was. -/
theorem steps_are_atomic :
    (∀ (s : Stmt) (env env' : Env) (f : Fault), s.step env = ⟨.error f, env'⟩ → env' = env) ∧
    (∀ (s s' : Stmt) (env env' : Env), s.step env = ⟨.ok s', env'⟩ → env' = env ∨
      ∃ x v, s.head = .assign x (.lit v) ∧ ∀ y, env'.get? y = if y = x then some (.lit v) else env.get? y) ∧
    (∀ (s : Stmt) (env : Env) (x : Ident) (v : Value), s.head = .assign x (.lit v) →
      ∃ s', s.step env = ⟨.ok s', env.insert x (.lit v)⟩) ∧
    ∀ (m m' : Machine Stmt) (stop : Stop), m.step = (m', .error stop) → m' = m := by
  refine ⟨fun s env env' f h => Stmt.step_fault_env h, ?_, fun s env x v h => Stmt.step_of_head h env, ?_⟩
  · intro s s' env env' h
    have henv : env' = s.head.commit env := by rw [← Stmt.step_env, h]
    rcases s.head.commit_cases with hc | ⟨x, v, hx, hc⟩
    · exact .inl (henv.trans (hc env))
    · refine .inr ⟨x, v, hx, fun y => ?_⟩
      rw [henv, hc, Dict.get?_insert]
  · intro m m' stop h
    have hs := Machine.step_cases m
    rw [h] at hs
    cases hs with
    | spent _ _ => rfl
    | fault _ _ => rfl

/-- Two sequences deep: an assignment that fails, and one that binds its target anew. The machine is stopped by the
fault of the first, and by its limit before it comes to the second. -/
theorem atomic_under_sequences :
    let env : Env := Dict.empty.insert "x" (.var "y")
    let env' : Env := env.insert "x" (.lit (.num 7))
    let deep : Stmt → Stmt := fun a => .seq (.seq a (.assign "y" (.var "x"))) .skip
    let stuck : Stmt := .assign "x" (.binary .add (.lit (.num 1)) (.var "y"))
    let write : Stmt := .assign "x" (.lit (.num 7))
    let m : Machine Stmt := ⟨deep stuck, env, ⟨some 3⟩, 2⟩
    let spent : Machine Stmt := ⟨deep write, env, ⟨some 3⟩, 3⟩
    ((deep stuck).step env).result = .error (.unbound "y") ∧ ((deep stuck).step env).env = env ∧
    ((deep write).head = write ∧ (∃ s', (deep write).step env = ⟨.ok s', env'⟩) ∧
      ∃ x v, (deep write).head = .assign x (.lit v) ∧
        ∀ y, env'.get? y = if y = x then some (.lit v) else env.get? y) ∧
    (m.step.2 = .error (.fault (.unbound "y")) ∧ m.step.1 = m) ∧
    spent.step.2 = .error (.limit 3) ∧ spent.step.1 = spent := by
  intro env env' deep stuck write m spent
  obtain ⟨hfault, hwrites, hcommits, hmachine⟩ := steps_are_atomic
  obtain ⟨s', hs'⟩ : ∃ s', (deep write).step env = ⟨.ok s', env'⟩ := hcommits _ env "x" (.num 7) rfl
  have hbound : ¬ env' = env := by
    intro h
    have hx : env'.get? "x" = env.get? "x" := by rw [h]
    cases hx
  exact ⟨rfl, hfault (deep stuck) env _ (.unbound "y") rfl,
    ⟨rfl, ⟨s', hs'⟩, (hwrites _ s' env env' hs').resolve_left hbound⟩,
    ⟨rfl, hmachine m m.step.1 (.fault (.unbound "y")) rfl⟩, rfl, hmachine spent spent.step.1 (.limit 3) rfl⟩

/-! ### Along reductions -/

section
variable {env env' : Env} {s s' : Stmt} {o : Outcome Unit} {k n fuel : Nat}

theorem Stmt.step_framed (env : Env) (s : Stmt) : Env.Framed s.targets env (s.step env).env := by
  rw [Stmt.step_env]
  rcases s.head.commit_cases with h | ⟨x, v, hx, h⟩
  · rw [h]
    exact .refl ..
  · rw [h]
    exact .insert (Stmt.target_of_head hx) env v

theorem Stmt.reduct_framed (h : Node.reduct? k env s = some (s', env')) : Env.Framed s.targets env env' := by
  induction k generalizing env s with
  | zero =>
    cases h
    exact .refl ..
  | succ k ih =>
    rcases hs : s.step env with ⟨f | s₁, env₁⟩
    · rw [Node.reduct?_of_fault hs] at h
      cases h
    · rw [Node.reduct?_of_ok hs] at h
      have hfirst := s.step_framed env
      have hnext : s.Inherits env s₁ := Stmt.inherits_of_step (congrArg Outcome.result hs)
      rw [hs] at hfirst
      exact hfirst.trans ((ih h).mono hnext.targets)

/-- What an execution leaves behind is the environment of a reduct, whether it succeeds or fails. -/
theorem Stmt.Executes.reduct (h : s.Executes env o n) : ∃ s', Node.reduct? n env s = some (s', o.env) := by
  obtain ⟨s', env', hs, h0⟩ := Machine.ends_iff_reduct.1 h.ends
  obtain rfl : env' = o.env := by
    generalize ho : (o.map fun _ => Stmt.skip) = p at h0
    cases h0 <;> exact (congrArg Outcome.env ho).symm
  exact ⟨s', hs⟩

theorem Stmt.Executes.framed (h : s.Executes env o n) : Env.Framed s.targets env o.env := by
  obtain ⟨s', hs⟩ := h.reduct
  exact Stmt.reduct_framed hs

theorem Stmt.exec_framed (h : s.exec fuel env = some o) : Env.Framed s.targets env o.env := by
  obtain ⟨n, hn⟩ := Stmt.executes_of_exec h
  exact hn.framed

end

/-! ### During an evaluation -/

/-- The environments that the evaluator holds at one moment or another while it runs a statement: the one it begins
with, those of its calls for the parts, and the one it leaves behind. -/
inductive Stmt.Passes : Env → Stmt → Env → Prop where
  | start (env : Env) (s : Stmt) : Passes env s env
  | left {env : Env} {s : Stmt} {fuel : Nat} {o : Outcome Unit} : s.exec fuel env = some o → Passes env s o.env
  | branch {env env' : Env} {c : Expr} {t f : Stmt} {b : Bool} {fuel : Nat} :
    c.test fuel env = some (.ok b) → Passes env (if b then t else f) env' → Passes env (.ite c t f) env'
  | first {env env' : Env} {a b : Stmt} : Passes env a env' → Passes env (.seq a b) env'
  | second {env env₁ env' : Env} {a b : Stmt} {fuel : Nat} :
    a.exec fuel env = some ⟨.ok (), env₁⟩ → Passes env₁ b env' → Passes env (.seq a b) env'
  | body {env env' : Env} {c : Expr} {body : Stmt} {fuel : Nat} :
    c.test fuel env = some (.ok true) → Passes env body env' → Passes env (.loop c body) env'
  | again {env env₁ env' : Env} {c : Expr} {body : Stmt} {fuel : Nat} :
    c.test fuel env = some (.ok true) → body.exec fuel env = some ⟨.ok (), env₁⟩ →
    Passes env₁ (.loop c body) env' → Passes env (.loop c body) env'

theorem Stmt.Passes.framed {env env' : Env} {s : Stmt} (h : s.Passes env env') : Env.Framed s.targets env env' := by
  induction h with
  | start env s => exact .refl ..
  | left h => exact Stmt.exec_framed h
  | @branch _ _ _ t f b _ _ _ ih =>
    refine ih.mono ?_
    cases b <;> simp [Stmt.targets]
  | first _ ih => exact ih.mono (List.subset_append_left _ _)
  | @second _ _ _ a b _ ha _ ih =>
    have hfirst := (Stmt.exec_framed ha).mono (List.subset_append_left a.targets b.targets)
    exact hfirst.trans (ih.mono (List.subset_append_right _ _))
  | body _ _ ih => exact ih
  | again _ hb _ ih => exact (Stmt.exec_framed hb).trans ih

/-- In either engine, at every moment: nothing is lost, only targets change, and only to literals. -/
theorem environments_stay_framed (s : Stmt) (env : Env) :
    (∀ k s' env', Node.reduct? k env s = some (s', env') → Env.Framed s.targets env env') ∧
    (∀ fuel o, s.exec fuel env = some o → Env.Framed s.targets env o.env) ∧
    (∀ env', s.Passes env env' → Env.Framed s.targets env env') ∧
    (env.Settled → (∀ k s' env', Node.reduct? k env s = some (s', env') → env'.Settled) ∧
      (∀ fuel o, s.exec fuel env = some o → o.env.Settled) ∧ ∀ env', s.Passes env env' → env'.Settled) := by
  refine ⟨fun k s' env' h => Stmt.reduct_framed h, fun fuel o h => Stmt.exec_framed h, fun env' h => h.framed, ?_⟩
  intro hs
  refine ⟨fun k s' env' h => ?_, fun fuel o h => ?_, fun env' h => ?_⟩
  · exact (Stmt.reduct_framed h).settled hs
  · exact (Stmt.exec_framed h).settled hs
  · exact h.framed.settled hs

/-- A run that fails behind an assignment, from bindings that are no literals; and a loop from a literal, where it
comes to its condition for the second time. -/
theorem framed_where_it_fails :
    let next : Stmt := .assign "x" (.binary .add (.var "x") (.lit (.num 1)))
    let s : Stmt := .seq next (.assign "y" (.var "z"))
    let square : Env := Dict.empty.insert "w" (.binary .mul (.var "x") (.var "x"))
    let env : Env := square.insert "x" (.binary .mul (.lit (.num 2)) (.lit (.num 3)))
    let env' : Env := square.insert "x" (.lit (.num 7))
    let loop : Stmt := .loop (.binary .lt (.var "x") (.lit (.num 1))) next
    let zero : Env := Dict.empty.insert "x" (.lit (.num 0))
    let one : Env := Dict.empty.insert "x" (.lit (.num 1))
    (s.exec 9 env = some ⟨.error (.unbound "z"), env'⟩ ∧ Env.Framed s.targets env env') ∧
    (Node.reduct? 7 zero loop = some (.seq .skip loop, one) ∧ Env.Framed loop.targets zero one) ∧
    (zero.Settled ∧ loop.Passes zero one ∧ one.Settled) := by
  intro next s square env env' loop zero one
  have hexec : s.exec 9 env = some ⟨.error (.unbound "z"), env'⟩ := rfl
  have hreduct : Node.reduct? 7 zero loop = some (.seq .skip loop, one) := rfl
  have hzero : zero.Settled := Env.settled_empty.insert "x" (.num 0)
  have hpasses : loop.Passes zero one :=
    .again (show Expr.test 8 zero _ = some (.ok true) from rfl) (show next.exec 8 zero = some ⟨.ok (), one⟩ from rfl)
      (.start ..)
  obtain ⟨-, hframed, -, -⟩ := environments_stay_framed s env
  obtain ⟨hframed', -, -, hsettled⟩ := environments_stay_framed loop zero
  have hone : one.Settled := (hsettled hzero).2.2 one hpasses
  exact ⟨⟨hexec, hframed 9 _ hexec⟩, ⟨hreduct, hframed' 7 _ one hreduct⟩, hzero, hpasses, hone⟩

end WhileLang
