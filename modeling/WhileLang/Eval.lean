import WhileLang.Step

/-! Evaluation in one go. Every call spends one unit of fuel, and `none` says
only that the fuel ran out: a program that never ends has no other answer, and
one that ends has the same answer for every fuel that is enough. -/

namespace WhileLang

section
variable {m : Type → Type} [Monad m] {ρ : Type}

/-- The left operand goes first; a variable stands for what its binding evaluates to. What comes back for an operand
is passed on to the operator as it is. -/
@[specialize]
def Expr.evalIn (spent : m ρ) (value : Value → ρ) (lookup : Ident → m Expr) (apply : Op → ρ → ρ → m ρ) :
    Nat → Expr → m ρ
  | 0, _ => spent
  | _ + 1, .lit v => return value v
  | fuel + 1, .var x => do
    let e ← lookup x
    Expr.evalIn spent value lookup apply fuel e
  | fuel + 1, .binary op l r => do
    let a ← Expr.evalIn spent value lookup apply fuel l
    let b ← Expr.evalIn spent value lookup apply fuel r
    apply op a b

/-- The truth of a condition. -/
@[specialize]
def Expr.testIn (eval : Expr → m ρ) (truth : ρ → m Bool) (c : Expr) : m Bool := do
  let v ← eval c
  truth v

/-- Runs a statement. -/
@[specialize]
def Stmt.execIn (spent : m Unit) (eval : Nat → Expr → m ρ) (test : Nat → Expr → m Bool)
    (assignTo : Ident → ρ → m Unit) : Nat → Stmt → m Unit
  | 0, _ => spent
  | _ + 1, .skip => return ()
  | fuel + 1, .assign x e => do
    let v ← eval fuel e
    assignTo x v
  | fuel + 1, .ite c t f => do
    let b ← test fuel c
    if b then Stmt.execIn spent eval test assignTo fuel t
    else Stmt.execIn spent eval test assignTo fuel f
  | fuel + 1, .seq a b => do
    Stmt.execIn spent eval test assignTo fuel a
    Stmt.execIn spent eval test assignTo fuel b
  | fuel + 1, .loop c body => do
    let b ← test fuel c
    if b then
      Stmt.execIn spent eval test assignTo fuel body
      Stmt.execIn spent eval test assignTo fuel (.loop c body)
    else return ()

end

def Expr.eval (fuel : Nat) (env : Env) (e : Expr) : Option (Except Fault Value) :=
  e.evalIn (m := Attempt) .spent id (.lookup env) .apply fuel

def Expr.test (fuel : Nat) (env : Env) (c : Expr) : Option (Except Fault Bool) :=
  c.testIn (m := Attempt) (Expr.eval fuel env) .truth

/-- Assignments made before a fault stay in the environment. -/
def Stmt.exec (fuel : Nat) (env : Env) (s : Stmt) : Option (Outcome Unit) :=
  s.execIn .spent (fun fuel e => .reading (e.eval fuel)) (fun fuel c => .reading (c.test fuel)) Run.assign fuel env

section
variable (env : Env) (fuel : Nat) (x : Ident) (op : Op) (l r e c : Expr) (a b t f body : Stmt)

@[simp] theorem Expr.eval_zero : e.eval 0 env = none := rfl

@[simp] theorem Expr.eval_lit (v : Value) : (lit v).eval (fuel + 1) env = some (.ok v) := rfl

theorem Expr.eval_var : (var x).eval (fuel + 1) env =
    match env.lookup x with
    | .error f => some (.error f)
    | .ok e => e.eval fuel env := by
  change Bind.bind (m := Attempt) (some (env.lookup x)) (fun e => e.eval fuel env) = _
  cases env.lookup x <;> rfl

theorem Expr.eval_binary : (binary op l r).eval (fuel + 1) env =
    match l.eval fuel env with
    | none => none
    | some (.error f) => some (.error f)
    | some (.ok a) =>
      match r.eval fuel env with
      | none => none
      | some (.error f) => some (.error f)
      | some (.ok b) => some (op.apply (.lit a) (.lit b)) := by
  change Bind.bind (m := Attempt) (l.eval fuel env) (fun a =>
    Bind.bind (m := Attempt) (r.eval fuel env) fun b => some (op.apply (.lit a) (.lit b))) = _
  rcases l.eval fuel env with _ | _ | _
  · rfl
  · rfl
  · rcases r.eval fuel env with _ | _ | _ <;> rfl

theorem Expr.test_eq : c.test fuel env =
    match c.eval fuel env with
    | none => none
    | some (.error f) => some (.error f)
    | some (.ok v) => some (lit v).truth := by
  unfold test testIn
  rcases c.eval fuel env with _ | _ | _ <;> rfl

@[simp] theorem Stmt.exec_zero (s : Stmt) : s.exec 0 env = none := rfl

@[simp] theorem Stmt.exec_skip : skip.exec (fuel + 1) env = some ⟨.ok (), env⟩ := rfl

theorem Stmt.exec_assign : (assign x e).exec (fuel + 1) env =
    match e.eval fuel env with
    | none => none
    | some (.error f) => some ⟨.error f, env⟩
    | some (.ok v) => some ⟨.ok (), env.insert x (.lit v)⟩ := by
  simp only [exec, execIn, Bind.bind, Run.reading]
  rcases e.eval fuel env with _ | _ | _ <;> rfl

theorem Stmt.exec_ite : (ite c t f).exec (fuel + 1) env =
    match c.test fuel env with
    | none => none
    | some (.error f) => some ⟨.error f, env⟩
    | some (.ok true) => t.exec fuel env
    | some (.ok false) => f.exec fuel env := by
  simp only [exec, execIn, Bind.bind, Run.reading]
  rcases c.test fuel env with _ | _ | _ | _ <;> rfl

theorem Stmt.exec_seq : (seq a b).exec (fuel + 1) env =
    match a.exec fuel env with
    | none => none
    | some ⟨.error f, env'⟩ => some ⟨.error f, env'⟩
    | some ⟨.ok (), env'⟩ => b.exec fuel env' := Run.bind_unit _ _ env

theorem Stmt.exec_loop : (loop c body).exec (fuel + 1) env =
    match c.test fuel env with
    | none => none
    | some (.error f) => some ⟨.error f, env⟩
    | some (.ok false) => some ⟨.ok (), env⟩
    | some (.ok true) =>
      match body.exec fuel env with
      | none => none
      | some ⟨.error f, env'⟩ => some ⟨.error f, env'⟩
      | some ⟨.ok (), env'⟩ => (loop c body).exec fuel env' := by
  simp only [exec, execIn, Bind.bind, Run.reading]
  rcases c.test fuel env with _ | _ | _ | _
  · rfl
  · rfl
  · rfl
  · exact Run.bind_unit _ _ env

end

/-- The final environment of a run from `env`, or the fault that ended it. -/
def Stmt.run (fuel : Nat) (env : Env) (s : Stmt) : Option (Except Fault Env) :=
  (s.exec fuel env).map fun o => o.result.map fun _ => o.env

end WhileLang
