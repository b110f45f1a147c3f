import WhileLang.Proofs.Frame

/-! Arithmetic against integers of any size. The reference computes with exact integers, in
the order left operand, right operand, operator, and stops at the first operator that
refuses: for the kinds of its operands, or because a sum or product does not fit into
64 bits. Evaluation from literals is that reference, so nothing wraps. What an
expression is worth in mathematics (`ideal`) has no check in it; with the nodes in the
order of their visits it says which operator is the first to refuse. -/

namespace WhileLang

/-! ### The reference -/

/-- A value, where a number has any size. -/
inductive Exact where
  | int (i : Int)
  | truth (b : Bool)

def Exact.kind : Exact → Kind
  | int _ => .number
  | truth _ => .boolean

def Value.exact : Value → Exact
  | num n => .int n.toInt
  | bool b => .truth b

def Fits (i : Int) : Prop := -9223372036854775808 ≤ i ∧ i ≤ 9223372036854775807

instance : DecidablePred Fits := fun _ => inferInstanceAs (Decidable (_ ∧ _))

inductive Refusal where
  /-- A name or the kinds of operands are wrong. -/
  | fault (f : Fault)
  /-- The result of `i op j` does not fit. -/
  | range (op : Op) (i j : Int)

def Refusal.message : Refusal → String
  | fault f => f.message
  | range op i j => "arithmetic overflow: " ++ Text.ofInt i ++ " " ++ op.symbol ++ " " ++ Text.ofInt j

def Op.fitting (op : Op) (i j k : Int) : Except Refusal Exact :=
  if Fits k then .ok (.int k) else .error (.range op i j)

def Op.reference : Op → Exact → Exact → Except Refusal Exact
  | .add, .int i, .int j => Op.fitting .add i j (i + j)
  | .mul, .int i, .int j => Op.fitting .mul i j (i * j)
  | .lt, .int i, .int j => .ok (.truth (decide (i < j)))
  | .lt, .truth a, .truth b => .error (.fault (.booleans a b))
  | .lt, a, b => .error (.fault (.incomparable a.kind b.kind))
  | op, a, b => .error (.fault (.operands op a.kind b.kind))

def Expr.reference (vars : Ident → Option Exact) : Expr → Except Refusal Exact
  | lit v => .ok v.exact
  | var x =>
    match vars x with
    | some a => .ok a
    | none => .error (.fault (.unbound x))
  | binary op l r => do
    let a ← l.reference vars
    let b ← r.reference vars
    op.reference a b

/-! ### Mathematics without checks -/

def Op.ideal : Op → Exact → Exact → Option Exact
  | .add, .int i, .int j => some (.int (i + j))
  | .mul, .int i, .int j => some (.int (i * j))
  | .lt, .int i, .int j => some (.truth (decide (i < j)))
  | _, _, _ => none

/-- What an expression is worth, however large the numbers on the way. -/
def Expr.ideal (vars : Ident → Option Exact) : Expr → Option Exact
  | lit v => some v.exact
  | var x => vars x
  | binary op l r => do
    let a ← l.ideal vars
    let b ← r.ideal vars
    op.ideal a b

/-- The nodes in the order in which they are visited: the operands of an operator before it, the left one first. -/
def Expr.nodes : Expr → List Expr
  | lit v => [lit v]
  | var x => [var x]
  | binary op l r => l.nodes ++ (r.nodes ++ [binary op l r])

/-- What is wrong with a node by itself, once its operands are worth something. -/
def Expr.refusal? (vars : Ident → Option Exact) : Expr → Option Refusal
  | lit _ => none
  | var x => if (vars x).isSome then none else some (.fault (.unbound x))
  | binary op l r =>
    match l.ideal vars, r.ideal vars with
    | some a, some b =>
      match op.reference a b with
      | .ok _ => none
      | .error q => some q
    | _, _ => none

def Exact.Small : Exact → Prop
  | int i => Fits i
  | truth _ => True

/-- An operator of the reference gives the exact result where that is small, and refuses for its size only where it is
not. -/
inductive Op.Judged (op : Op) (a b : Exact) : Except Refusal Exact → Prop where
  | ok {v : Exact} : op.ideal a b = some v → v.Small → Judged op a b (.ok v)
  | range {v : Exact} (i j : Int) : op.ideal a b = some v → ¬ v.Small → Judged op a b (.error (.range op i j))
  | kinds (f : Fault) : op.ideal a b = none → Judged op a b (.error (.fault f))

theorem Op.fitting_judged {op : Op} {i j k : Int} (h : op.ideal (.int i) (.int j) = some (.int k)) :
    op.Judged (.int i) (.int j) (op.fitting i j k) := by
  unfold Op.fitting
  split
  · next hk => exact .ok h hk
  · next hk => exact .range i j h hk

theorem Op.judged (op : Op) (a b : Exact) : op.Judged a b (op.reference a b) := by
  cases a with
  | truth a => cases op <;> cases b <;> exact .kinds _ rfl
  | int i =>
    cases b with
    | truth b => cases op <;> exact .kinds _ rfl
    | int j =>
      cases op with
      | add => exact Op.fitting_judged rfl
      | mul => exact Op.fitting_judged rfl
      | lt => exact .ok rfl trivial

/-- The reference is the first refusal on the visits, and the value in mathematics where there is none. -/
inductive Expr.Visited (vars : Ident → Option Exact) (e : Expr) : Except Refusal Exact → Prop where
  | ok {v : Exact} : e.ideal vars = some v → e.nodes.findSome? (Expr.refusal? vars) = none → Visited vars e (.ok v)
  | error {q : Refusal} : e.nodes.findSome? (Expr.refusal? vars) = some q → Visited vars e (.error q)

section
variable {vars : Ident → Option Exact} {e e' : Expr} {v v' : Exact}

theorem Expr.refusal?_binary {op : Op} {l r : Expr} {a b : Exact} (ha : l.ideal vars = some a)
    (hb : r.ideal vars = some b) : (Expr.binary op l r).refusal? vars =
      match op.reference a b with
      | .ok _ => none
      | .error q => some q := by
  simp only [Expr.refusal?, ha, hb]

theorem Expr.visited (vars : Ident → Option Exact) (e : Expr) : e.Visited vars (e.reference vars) := by
  induction e with
  | lit v => exact .ok rfl rfl
  | var x =>
    unfold Expr.reference
    cases hx : vars x with
    | some a => exact .ok hx (by simp [Expr.nodes, Expr.refusal?, hx])
    | none => exact .error (by simp [Expr.nodes, Expr.refusal?, hx])
  | binary op l r ihl ihr =>
    unfold Expr.reference
    generalize l.reference vars = w at ihl
    cases ihl with
    | error hl => exact .error (by simp [Expr.nodes, List.findSome?_append, hl])
    | @ok a ha hl =>
      generalize r.reference vars = w at ihr
      cases ihr with
      | error hr => exact .error (by simp [Expr.nodes, List.findSome?_append, hl, hr])
      | @ok b hb hr =>
        -- the operands refuse nothing, so it is up to the operator
        have hlast : (Expr.binary op l r).nodes.findSome? (Expr.refusal? vars) =
            (Expr.binary op l r).refusal? vars := by
          simp [Expr.nodes, List.findSome?_append, hl, hr]
        rw [Expr.refusal?_binary ha hb] at hlast
        have hop := op.judged a b
        show Visited vars _ (op.reference a b)
        generalize op.reference a b = w at hop hlast
        cases hop with
        | ok hv _ => exact .ok (by simp [Expr.ideal, ha, hb, hv]) hlast
        | range i j _ _ => exact .error hlast
        | kinds f _ => exact .error hlast

/-- Where the whole is worth something, so is every part. -/
theorem Expr.ideal_of_node (h : e.ideal vars = some v) (he : e' ∈ e.nodes) : ∃ v', e'.ideal vars = some v' := by
  induction e generalizing v with
  | lit w =>
    obtain rfl := List.mem_singleton.1 he
    exact ⟨v, h⟩
  | var x =>
    obtain rfl := List.mem_singleton.1 he
    exact ⟨v, h⟩
  | binary op l r ihl ihr =>
    obtain ⟨a, ha, h'⟩ := Option.bind_eq_some_iff.1 h
    obtain ⟨b, hb, -⟩ := Option.bind_eq_some_iff.1 h'
    rcases List.mem_append.1 he with he | he
    · exact ihl ha he
    · rcases List.mem_append.1 he with he | he
      · exact ihr hb he
      · obtain rfl := List.mem_singleton.1 he
        exact ⟨v, h⟩

theorem Value.exact_small (v : Value) : v.exact.Small := by
  cases v with
  | num n =>
    have hlo := n.le_toInt
    have hhi := n.toInt_lt
    exact ⟨by omega, by omega⟩
  | bool b => trivial

/-- A node that is worth something is only ever refused for its size. -/
theorem Expr.refusal?_of_ideal (hvars : ∀ x a, vars x = some a → a.Small) (h : e.ideal vars = some v) :
    v.Small ∧ e.refusal? vars = none ∨ ¬ v.Small ∧ ∃ op i j, e.refusal? vars = some (.range op i j) := by
  cases e with
  | lit w =>
    obtain rfl : w.exact = v := Option.some.inj h
    exact .inl ⟨w.exact_small, rfl⟩
  | var x =>
    have hx : vars x = some v := h
    exact .inl ⟨hvars x v hx, by simp [Expr.refusal?, hx]⟩
  | binary op l r =>
    obtain ⟨a, ha, h'⟩ := Option.bind_eq_some_iff.1 h
    obtain ⟨b, hb, hv⟩ := Option.bind_eq_some_iff.1 h'
    have hop := op.judged a b
    rw [Expr.refusal?_binary ha hb]
    generalize op.reference a b = w at hop
    cases hop with
    | ok hv' hsmall =>
      rw [hv] at hv'
      cases hv'
      exact .inl ⟨hsmall, rfl⟩
    | range i j hv' hlarge =>
      rw [hv] at hv'
      cases hv'
      exact .inr ⟨hlarge, op, i, j, rfl⟩
    | kinds f hnone =>
      rw [hv] at hnone
      cases hnone

/-- A number on the way that does not fit stops the reference, also where the whole is worth a number that does. -/
theorem Expr.reference_of_large (hvars : ∀ x a, vars x = some a → a.Small) (h : e.ideal vars = some v)
    (he : e' ∈ e.nodes) (h' : e'.ideal vars = some v') (hlarge : ¬ v'.Small) :
    ∃ op i j, e.reference vars = .error (.range op i j) := by
  have hvisited := e.visited vars
  generalize e.reference vars = w at hvisited
  cases hvisited with
  | ok _ hnone =>
    have hnode : e'.refusal? vars = none := List.findSome?_eq_none_iff.1 hnone e' he
    rcases Expr.refusal?_of_ideal hvars h' with ⟨hsmall, -⟩ | ⟨-, op, i, j, hr⟩
    · exact absurd hsmall hlarge
    · rw [hnode] at hr
      cases hr
  | error hq =>
    obtain ⟨first, hfirst, hr⟩ := List.exists_of_findSome?_eq_some hq
    obtain ⟨w, hw⟩ := Expr.ideal_of_node h hfirst
    rcases Expr.refusal?_of_ideal hvars hw with ⟨-, hnone⟩ | ⟨-, op, i, j, hr'⟩
    · rw [hnone] at hr
      cases hr
    · rw [hr'] at hr
      cases hr
      exact ⟨op, i, j, rfl⟩

end

/-! ### Evaluation -/

def Fault.exact : Fault → Refusal
  | overflow op a b => .range op a.toInt b.toInt
  | f => .fault f

def exactly : Except Fault Value → Except Refusal Exact
  | .ok v => .ok v.exact
  | .error f => .error f.exact

def Env.exact (env : Env) (x : Ident) : Option Exact :=
  match env.get? x with
  | some (.lit v) => some v.exact
  | _ => none

theorem Fault.exact_message (f : Fault) : f.exact.message = f.message := by
  cases f <;> rfl

theorem overflow_of_range {w : Except Fault Value} {op : Op} {i j : Int} (h : exactly w = .error (.range op i j)) :
    ∃ op a b, w = .error (.overflow op a b) := by
  cases w with
  | ok v => cases h
  | error f =>
    cases f with
    | overflow op a b => exact ⟨op, a, b, rfl⟩
    | _ => cases h

theorem Env.exact_small (env : Env) (x : Ident) (a : Exact) (h : env.exact x = some a) : a.Small := by
  unfold Env.exact at h
  split at h
  · next v _ =>
    cases h
    exact v.exact_small
  · cases h

theorem word?_of_fits {i : Int} (h : Fits i) : ∃ n, word? i = some n ∧ n.toInt = i := by
  obtain ⟨hlo, hhi⟩ := h
  refine ⟨.ofInt i, ?_, Int64.toInt_ofInt_of_le (by omega) (by omega)⟩
  unfold word?
  rw [if_pos (by omega)]

theorem word?_of_not_fits {i : Int} (h : ¬ Fits i) : word? i = none := by
  unfold Fits at h
  unfold word?
  rw [if_neg (by omega)]

theorem Op.checked_exact (op : Op) (exact : Int → Int → Int) (m n : Int64) :
    exactly (op.checked exact (.lit (.num m)) (.lit (.num n))) =
      op.fitting m.toInt n.toInt (exact m.toInt n.toInt) := by
  unfold Op.checked Op.fitting
  by_cases h : Fits (exact m.toInt n.toInt)
  · obtain ⟨k, hk, hexact⟩ := word?_of_fits h
    simp [hk, h, exactly, Value.exact, hexact]
  · simp [word?_of_not_fits h, h, exactly, Fault.exact]

theorem Op.apply_exact (op : Op) (a b : Value) :
    exactly (op.apply (.lit a) (.lit b)) = op.reference a.exact b.exact := by
  cases a with
  | bool a => cases b <;> cases op <;> rfl
  | num m =>
    cases b with
    | bool b => cases op <;> rfl
    | num n =>
      cases op with
      | add => exact Op.checked_exact .add (· + ·) m n
      | mul => exact Op.checked_exact .mul (· * ·) m n
      | lt =>
        show Except.ok (Exact.truth (decide (m < n))) = Except.ok (Exact.truth (decide (m.toInt < n.toInt)))
        simp only [Int64.lt_iff_toInt_lt]

theorem Expr.exactly_of_evaluates {env : Env} {e : Expr} {w : Except Fault Value} {n : Nat} (hs : env.Settled)
    (h : e.Evaluates env w n) : exactly w = e.reference env.exact := by
  induction h with
  | lit v => rfl
  | @unbound x f hx =>
    have hnone := Env.lookup_eq_error hx
    obtain rfl : .unbound x = f := by simpa [Env.lookup, hnone] using hx
    simp [Expr.reference, Env.exact, hnone, exactly, Fault.exact]
  | @var x e w n hx he _ =>
    -- the binding is a literal, so this is its value
    obtain ⟨v, rfl⟩ := hs x e (Env.lookup_eq_ok hx)
    cases he
    simp [Expr.reference, Env.exact, Env.lookup_eq_ok hx, exactly]
  | leftFault _ ihl =>
    rw [Expr.reference, ← ihl]
    rfl
  | rightFault _ _ ihl ihr =>
    rw [Expr.reference, ← ihl, ← ihr]
    rfl
  | @applyFault op l r a b f m n _ _ hv ihl ihr =>
    rw [Expr.reference, ← ihl, ← ihr, ← hv]
    exact op.apply_exact a b
  | @apply op l r a b v m n _ _ hv ihl ihr =>
    rw [Expr.reference, ← ihl, ← ihr, ← hv]
    exact op.apply_exact a b

/-- Evaluation from literals ends, and with what the reference says: the exact value, or the first refusal in the order of
the visits, with its exact operands. No number on the way can be out of range unnoticed. -/
theorem arithmetic_is_exact_or_refused (e : Expr) (env : Env) (hs : env.Settled) :
    (∃ fuel w, e.eval fuel env = some w) ∧
    (∀ fuel w, e.eval fuel env = some w → exactly w = e.reference env.exact) ∧
    (∀ fuel v, e.eval fuel env = some (.ok v) → e.ideal env.exact = some v.exact) ∧
    (∀ fuel f, e.eval fuel env = some (.error f) →
      e.nodes.findSome? (Expr.refusal? env.exact) = some f.exact ∧ f.message = f.exact.message) ∧
    ∀ v part i, e.ideal env.exact = some v → part ∈ e.nodes → part.ideal env.exact = some (.int i) → ¬ Fits i →
      ∃ fuel op a b, e.eval fuel env = some (.error (.overflow op a b)) := by
  have hends : ∃ fuel w, e.eval fuel env = some w := by
    obtain ⟨w, n, hw⟩ := e.evaluates_of_settled hs
    obtain ⟨fuel, hfuel⟩ := hw.eval
    exact ⟨fuel, w, hfuel⟩
  have hexact : ∀ fuel w, e.eval fuel env = some w → exactly w = e.reference env.exact := by
    intro fuel w h
    obtain ⟨n, hn⟩ := Expr.evaluates_of_eval h
    exact Expr.exactly_of_evaluates hs hn
  have hvisited := e.visited env.exact
  refine ⟨hends, hexact, fun fuel v h => ?_, fun fuel f h => ?_, fun v part i hv hpart hi hlarge => ?_⟩
  · rw [← hexact fuel _ h] at hvisited
    cases hvisited with
    | ok hideal _ => exact hideal
  · rw [← hexact fuel _ h] at hvisited
    cases hvisited with
    | error hfirst => exact ⟨hfirst, f.exact_message.symm⟩
  · obtain ⟨fuel, w, hw⟩ := hends
    obtain ⟨op, i, j, hr⟩ := Expr.reference_of_large env.exact_small hv hpart hi hlarge
    obtain ⟨op, a, b, rfl⟩ := overflow_of_range ((hexact fuel w hw).trans hr)
    exact ⟨fuel, op, a, b, hw⟩

/-- One more than the largest number and one less again: the whole is in range, and the first sum is not. The largest
number times one is given as it is. -/
theorem overflow_on_the_way :
    let env : Env := Dict.empty.insert "x" (.lit (.num 9223372036854775807))
    let next : Expr := .binary .add (.var "x") (.lit (.num 1))
    let e : Expr := .binary .add next (.lit (.num (-1)))
    let once : Expr := .binary .mul (.var "x") (.lit (.num 1))
    let f : Fault := .overflow .add 9223372036854775807 1
    env.Settled ∧
    (e.ideal env.exact = some (.int 9223372036854775807) ∧ next ∈ e.nodes ∧
      next.ideal env.exact = some (.int 9223372036854775808) ∧ ¬ Fits 9223372036854775808 ∧
      ∃ fuel op a b, e.eval fuel env = some (.error (.overflow op a b))) ∧
    (e.eval 4 env = some (.error f) ∧ exactly (.error f) = e.reference env.exact ∧
      e.nodes.findSome? (Expr.refusal? env.exact) = some (.range .add 9223372036854775807 1) ∧
      f.message = "arithmetic overflow: 9223372036854775807 + 1") ∧
    once.eval 3 env = some (.ok (.num 9223372036854775807)) ∧
    once.ideal env.exact = some (.int 9223372036854775807) := by
  intro env next e once f
  have hs : env.Settled := Env.settled_empty.insert "x" (.num 9223372036854775807)
  have hideal : e.ideal env.exact = some (.int 9223372036854775807) := rfl
  have hmem : next ∈ e.nodes := by simp [e, next, Expr.nodes]
  have hnext : next.ideal env.exact = some (.int 9223372036854775808) := rfl
  have hlarge : ¬ Fits 9223372036854775808 := by decide
  have heval : e.eval 4 env = some (.error f) := rfl
  have honce : once.eval 3 env = some (.ok (.num 9223372036854775807)) := rfl
  obtain ⟨-, hexact, -, hfirst, hover⟩ := arithmetic_is_exact_or_refused e env hs
  obtain ⟨-, -, hvalue, -, -⟩ := arithmetic_is_exact_or_refused once env hs
  obtain ⟨hrefusal, hmessage⟩ := hfirst 4 f heval
  exact ⟨hs, ⟨hideal, hmem, hnext, hlarge, hover _ next _ hideal hmem hnext hlarge⟩,
    ⟨heval, hexact 4 _ heval, hrefusal, hmessage.trans rfl⟩, honce, hvalue 3 _ honce⟩

end WhileLang
