import Mathlib.Logic.ExistsUnique
import WhileLang.Proofs.Reduction

/-! Where a step is made. A phrase that can be reduced is a redex in a context, in one way
only, and a step contracts the redex and leaves the context as it is. A context waits
for what stands in its hole, so a step of the part is a step of the whole (`step_fill`);
what there is to contract is then said by six redexes, each with its own rule. -/

namespace WhileLang

inductive Phrase where
  | expr
  | stmt

abbrev Phrase.Tree : Phrase → Type
  | expr => Expr
  | stmt => Stmt

instance (p : Phrase) : Node p.Tree :=
  match p with
  | .expr => inferInstanceAs (Node Expr)
  | .stmt => inferInstanceAs (Node Stmt)

/-- A phrase of kind `q` with a hole for one of kind `p`, where the next step is due. All that stands to the left of
the hole is evaluated. -/
inductive Context (p : Phrase) : Phrase → Type where
  | hole : Context p p
  | left (op : Op) (K : Context p .expr) (r : Expr) : Context p .expr
  | right (op : Op) (v : Value) (K : Context p .expr) : Context p .expr
  | assign (x : Ident) (K : Context p .expr) : Context p .stmt
  | condition (K : Context p .expr) (t f : Stmt) : Context p .stmt
  | first (K : Context p .stmt) (b : Stmt) : Context p .stmt

def Context.fill {p q : Phrase} : Context p q → p.Tree → q.Tree
  | hole, t => t
  | left op K r, t => Expr.binary op (K.fill t) r
  | right op v K, t => Expr.binary op (.lit v) (K.fill t)
  | assign x K, t => Stmt.assign x (K.fill t)
  | condition K c f, t => Stmt.ite (K.fill t) c f
  | first K b, t => Stmt.seq (K.fill t) b

inductive Redex : Phrase → Type where
  | var (x : Ident) : Redex .expr
  | apply (op : Op) (v w : Value) : Redex .expr
  | assign (x : Ident) (v : Value) : Redex .stmt
  | choose (v : Value) (t f : Stmt) : Redex .stmt
  | next (b : Stmt) : Redex .stmt
  | unroll (c : Expr) (body : Stmt) : Redex .stmt

namespace Redex

def tree {p : Phrase} : Redex p → p.Tree
  | var x => Expr.var x
  | apply op v w => Expr.binary op (.lit v) (.lit w)
  | assign x v => Stmt.assign x (.lit v)
  | choose v t f => Stmt.ite (.lit v) t f
  | next b => Stmt.seq .skip b
  | unroll c body => Stmt.loop c body

/-- What a redex turns into. Only an assignment writes. -/
def contract {p : Phrase} (env : Env) : Redex p → Outcome p.Tree
  | var x => ⟨env.lookup x, env⟩
  | apply op v w => ⟨(op.apply (.lit v) (.lit w)).map Expr.lit, env⟩
  | assign x v => ⟨.ok Stmt.skip, env.insert x (.lit v)⟩
  | choose v t f => ⟨(Expr.lit v).truth.map fun b => if b then t else f, env⟩
  | next b => ⟨.ok b, env⟩
  | unroll c body => ⟨.ok (Stmt.ite c (.seq body (.loop c body)) .skip), env⟩

end Redex

structure Decomposition (q : Phrase) where
  {kind : Phrase}
  context : Context kind q
  redex : Redex kind

namespace Decomposition

def tree {q : Phrase} (d : Decomposition q) : q.Tree := d.context.fill d.redex.tree

def within {q q' : Phrase} (grow : ∀ {p : Phrase}, Context p q → Context p q') (d : Decomposition q) :
    Decomposition q' := ⟨grow d.context, d.redex⟩

end Decomposition

/-! ### The step -/

section
variable {p q : Phrase} {t : p.Tree}

theorem Context.reducible_fill (K : Context p q) (h : Node.reducible t = true) : Node.reducible (K.fill t) = true := by
  cases K with
  | hole => exact h
  | _ => rfl

theorem Redex.reducible_tree (r : Redex p) : Node.reducible r.tree = true := by
  cases r <;> rfl

/-- A place in a part is a place in the whole. -/
theorem Hole.step_within {α β γ : Type} [Node α] [Node β] [Node γ] {C : β → γ} {f : α → β} {env : Env} {a : α}
    (hC : Hole C) (hr : Node.reducible (f a) = true) (hs : Node.step env (f a) = (Node.step env a).map f) :
    Node.step env (C (f a)) = (Node.step env a).map (C ∘ f) := by
  rw [hC.step env (f a) hr, hs, Outcome.map_map]

/-- A step of what stands in the hole is a step of the whole. -/
theorem Context.step_fill (K : Context p q) (h : Node.reducible t = true) (env : Env) :
    Node.step env (K.fill t) = (Node.step env t).map K.fill := by
  -- from the outside in: each layer waits for the next one, which is reducible since `t` is
  induction K with
  | hole => exact (Outcome.map_id (Node.step env t)).symm
  | left op K r ih => exact (Hole.binaryLeft op r).step_within (K.reducible_fill h) ih
  | right op v K ih => exact (Hole.binaryRight op v).step_within (K.reducible_fill h) ih
  | assign x K ih => exact (Hole.assign x).step_within (K.reducible_fill h) ih
  | condition K c f ih => exact (Hole.condition c f).step_within (K.reducible_fill h) ih
  | first K b ih => exact (Hole.first b).step_within (K.reducible_fill h) ih

theorem Redex.step_tree (r : Redex p) (env : Env) : Node.step env r.tree = r.contract env := by
  cases r with
  | choose v t f => exact Stmt.step_ite env (.lit v) t f
  | _ => rfl

theorem Decomposition.step_tree (d : Decomposition q) (env : Env) :
    Node.step env d.tree = (d.redex.contract env).map d.context.fill := by
  rw [tree, d.context.step_fill d.redex.reducible_tree env, d.redex.step_tree env]

end

/-! ### The decomposition -/

def Expr.locate : Expr → Option (Decomposition .expr)
  | lit _ => none
  | var x => some ⟨.hole, .var x⟩
  | binary op (lit v) (lit w) => some ⟨.hole, .apply op v w⟩
  | binary op (lit v) r => r.locate.map fun d => d.within (.right op v)
  | binary op l r => l.locate.map fun d => d.within fun K => .left op K r

def Stmt.locate : Stmt → Option (Decomposition .stmt)
  | skip => none
  | assign x (.lit v) => some ⟨.hole, .assign x v⟩
  | assign x e => e.locate.map fun d => d.within (.assign x)
  | ite (.lit v) t f => some ⟨.hole, .choose v t f⟩
  | ite c t f => c.locate.map fun d => d.within fun K => .condition K t f
  | seq skip b => some ⟨.hole, .next b⟩
  | seq a b => a.locate.map fun d => d.within fun K => .first K b
  | loop c body => some ⟨.hole, .unroll c body⟩

def Phrase.locate : (q : Phrase) → q.Tree → Option (Decomposition q)
  | expr => Expr.locate
  | stmt => Stmt.locate

section
variable {p q : Phrase} {e l r : Expr} {s : Stmt}

theorem Expr.locate_left (h : l.reducible = true) (op : Op) (r : Expr) :
    (binary op l r).locate = l.locate.map fun d => d.within fun K => .left op K r := by
  cases l with
  | lit v => cases h
  | _ => rfl

theorem Expr.locate_right (h : r.reducible = true) (op : Op) (v : Value) :
    (binary op (lit v) r).locate = r.locate.map fun d => d.within (.right op v) := by
  cases r with
  | lit w => cases h
  | _ => rfl

theorem Stmt.locate_assign (h : e.reducible = true) (x : Ident) :
    (assign x e).locate = e.locate.map fun d => d.within (.assign x) := by
  cases e with
  | lit v => cases h
  | _ => rfl

theorem Stmt.locate_condition (h : e.reducible = true) (t f : Stmt) :
    (ite e t f).locate = e.locate.map fun d => d.within fun K => .condition K t f := by
  cases e with
  | lit v => cases h
  | _ => rfl

theorem Stmt.locate_first (h : s.reducible = true) (b : Stmt) :
    (seq s b).locate = s.locate.map fun d => d.within fun K => .first K b := by
  cases s with
  | skip => cases h
  | _ => rfl

/-- The redex is found again in every context. -/
theorem Context.locate_fill (K : Context p q) (r : Redex p) : q.locate (K.fill r.tree) = some ⟨K, r⟩ := by
  -- what fills a context is reducible, so the search goes past the cases for literals
  have hr := r.reducible_tree
  induction K with
  | hole => cases r <;> rfl
  | left op K e ih => exact (Expr.locate_left (K.reducible_fill hr) op e).trans (congrArg (Option.map _) ih)
  | right op v K ih => exact (Expr.locate_right (K.reducible_fill hr) op v).trans (congrArg (Option.map _) ih)
  | assign x K ih => exact (Stmt.locate_assign (K.reducible_fill hr) x).trans (congrArg (Option.map _) ih)
  | condition K t f ih => exact (Stmt.locate_condition (K.reducible_fill hr) t f).trans (congrArg (Option.map _) ih)
  | first K b ih => exact (Stmt.locate_first (K.reducible_fill hr) b).trans (congrArg (Option.map _) ih)

/-- An operand is looked up while the other one waits. -/
example : (Expr.binary .add (.var "x") (.var "y")).locate = some ⟨.left .add .hole (.var "y"), .var "x"⟩ := rfl

theorem Decomposition.tree_injective : Function.Injective (Decomposition.tree (q := q)) := by
  intro d d' h
  have hfound := congrArg q.locate h
  rw [tree, tree, d.context.locate_fill, d'.context.locate_fill] at hfound
  exact Option.some.inj hfound

theorem Expr.exists_decomposition (h : e.reducible = true) : ∃ d : Decomposition .expr, d.tree = e := by
  induction e with
  | lit v => cases h
  | var x => exact ⟨⟨.hole, .var x⟩, rfl⟩
  | binary op l r ihl ihr =>
    by_cases hl : l.reducible = true
    · obtain ⟨d, rfl⟩ := ihl hl
      exact ⟨d.within fun K => .left op K r, rfl⟩
    · obtain ⟨v, rfl⟩ := Expr.reducible_eq_false hl
      by_cases hr : r.reducible = true
      · obtain ⟨d, rfl⟩ := ihr hr
        exact ⟨d.within (.right op v), rfl⟩
      · obtain ⟨w, rfl⟩ := Expr.reducible_eq_false hr
        exact ⟨⟨.hole, .apply op v w⟩, rfl⟩

theorem Stmt.exists_decomposition (h : s.reducible = true) : ∃ d : Decomposition .stmt, d.tree = s := by
  induction s with
  | skip => cases h
  | assign x e =>
    by_cases he : e.reducible = true
    · obtain ⟨d, rfl⟩ := Expr.exists_decomposition he
      exact ⟨d.within (.assign x), rfl⟩
    · obtain ⟨v, rfl⟩ := Expr.reducible_eq_false he
      exact ⟨⟨.hole, .assign x v⟩, rfl⟩
  | ite c t f _ _ =>
    by_cases hc : c.reducible = true
    · obtain ⟨d, rfl⟩ := Expr.exists_decomposition hc
      exact ⟨d.within fun K => .condition K t f, rfl⟩
    · obtain ⟨v, rfl⟩ := Expr.reducible_eq_false hc
      exact ⟨⟨.hole, .choose v t f⟩, rfl⟩
  | seq a b iha _ =>
    by_cases ha : a.reducible = true
    · obtain ⟨d, rfl⟩ := iha ha
      exact ⟨d.within fun K => .first K b, rfl⟩
    · obtain rfl := Stmt.reducible_eq_false ha
      exact ⟨⟨.hole, .next b⟩, rfl⟩
  | loop c body _ => exact ⟨⟨.hole, .unroll c body⟩, rfl⟩

theorem Phrase.exists_decomposition : (q : Phrase) → (t : q.Tree) → Node.reducible t = true →
    ∃ d : Decomposition q, d.tree = t
  | expr, _, h => Expr.exists_decomposition h
  | stmt, _, h => Stmt.exists_decomposition h

theorem Decomposition.existsUnique_iff (q : Phrase) (t : q.Tree) :
    Node.reducible t = true ↔ ∃! d : Decomposition q, d.tree = t := by
  refine ⟨fun h => ?_, fun ⟨d, hd, _⟩ => ?_⟩
  · obtain ⟨d, rfl⟩ := q.exists_decomposition t h
    exact ⟨d, rfl, fun d' hd' => tree_injective hd'⟩
  · rw [← hd]
    exact d.context.reducible_fill d.redex.reducible_tree

end

/-- A reducible phrase is a redex in a context, in exactly one way. The step makes of the redex what its rule says, with
the context around it as before, or fails as the rule does; an expression leaves the environment alone. -/
theorem steps_contract_the_leftmost_redex :
    (∀ e : Expr, e.reducible = true ↔ ∃! d : Decomposition .expr, d.tree = e) ∧
    (∀ s : Stmt, s.reducible = true ↔ ∃! d : Decomposition .stmt, d.tree = s) ∧
    (∀ (d : Decomposition .expr) (env : Env),
      ⟨Expr.step env d.tree, env⟩ = (d.redex.contract env).map d.context.fill) ∧
    ∀ (d : Decomposition .stmt) (env : Env),
      Stmt.step env d.tree = (d.redex.contract env).map d.context.fill :=
  ⟨Decomposition.existsUnique_iff .expr, Decomposition.existsUnique_iff .stmt, fun d env => d.step_tree env,
    fun d env => d.step_tree env⟩

end WhileLang
