import WhileLang.Engine

/-! One step of reduction. The leftmost reducible part takes it, and a node
collapses only once its parts are literals. A loop unrolls without a look at
its condition; the choice it turns into decides later. -/

namespace WhileLang

section
variable {m : Type → Type} [Monad m]

/-- A step of an expression, in terms of how it fails, what a variable stands for and what an operator gives. -/
@[specialize]
def Expr.stepIn (fail : Fault → m Expr) (lookup : Ident → m Expr) (apply : Op → Expr → Expr → m Expr) : Expr → m Expr
  | lit v => fail (.irreducible v)
  | var x => lookup x
  | binary op l r =>
    if l.reducible then return binary op (← l.stepIn fail lookup apply) r
    else if r.reducible then return binary op l (← r.stepIn fail lookup apply)
    else apply op l r

/-- A step of a statement, which may be one of an expression in it. -/
@[specialize]
def Stmt.stepIn (fail : Fault → m Stmt) (step : Expr → m Expr) (assignTo : Ident → Expr → m Unit)
    (truth : Expr → m Bool) : Stmt → m Stmt
  | skip => fail .finished
  | assign x e =>
    if e.reducible then return assign x (← step e)
    else do
      assignTo x e
      return skip
  | ite c t f =>
    if c.reducible then return ite (← step c) t f
    else return if ← truth c then t else f
  | seq a b => if a.reducible then return seq (← a.stepIn fail step assignTo truth) b else return b
  | loop c body => return ite c (seq body (loop c body)) skip

end

def Expr.step (env : Env) (e : Expr) : Except Fault Expr :=
  e.stepIn .error env.lookup fun op l r => (op.apply l r).map .lit

def Stmt.step (env : Env) (s : Stmt) : Outcome Stmt :=
  s.stepIn .fail (fun e => .reading e.step) Update.assign .truth env

section
variable (env : Env) (x : Ident) (op : Op) (l r e c : Expr) (a b t f body : Stmt)

@[simp] theorem Expr.step_lit (v : Value) : (lit v).step env = .error (.irreducible v) := rfl

@[simp] theorem Expr.step_var : (var x).step env = env.lookup x := rfl

theorem Expr.step_binary : (binary op l r).step env =
    if l.reducible then (l.step env).map (binary op · r)
    else if r.reducible then (r.step env).map (binary op l ·)
    else (op.apply l r).map lit := rfl

@[simp] theorem Stmt.step_skip : skip.step env = ⟨.error .finished, env⟩ := rfl

theorem Stmt.step_assign : (assign x e).step env =
    if e.reducible then ⟨(e.step env).map (assign x), env⟩ else ⟨.ok skip, env.insert x e⟩ := by
  unfold step stepIn
  split
  · exact Update.bind_pure _ _ env
  · rfl

theorem Stmt.step_ite : (ite c t f).step env =
    if c.reducible then ⟨(c.step env).map (ite · t f), env⟩
    else ⟨c.truth.map fun b => if b then t else f, env⟩ := by
  unfold step stepIn
  split
  · exact Update.bind_pure _ _ env
  · exact Update.bind_pure _ _ env

theorem Stmt.step_seq : (seq a b).step env =
    if a.reducible then (a.step env).map (seq · b) else ⟨.ok b, env⟩ := by
  unfold step
  rw [stepIn]
  split
  · exact Update.bind_pure _ _ env
  · rfl

@[simp] theorem Stmt.step_loop :
    (loop c body).step env = ⟨.ok (ite c (seq body (loop c body)) skip), env⟩ := rfl

end

end WhileLang
