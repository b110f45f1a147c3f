import WhileLang.Proofs.History

/-! How sequences are bracketed cannot be seen. A statement is flattened into a list of
pieces, at every depth, and the list has a step and a text of its own. Both commute
with flattening, so a machine on a statement shows what the machine on its pieces
shows, and two statements with the same pieces are served alike for ever. -/

namespace WhileLang

/-- A statement that is no sequence. Where it has statements as parts, these are lists of pieces again. -/
inductive Piece where
  | skip
  | assign (x : Ident) (e : Expr)
  | ite (c : Expr) (t f : List Piece)
  | loop (c : Expr) (body : List Piece)

def Stmt.pieces : Stmt → List Piece
  | skip => [.skip]
  | assign x e => [.assign x e]
  | ite c t f => [.ite c t.pieces f.pieces]
  | seq a b => a.pieces ++ b.pieces
  | loop c body => [.loop c body.pieces]

abbrev Block := List Piece

mutual

def Piece.text : Piece → String
  | .skip => "do-nothing"
  | .assign x e => x ++ " = " ++ e.text
  | .ite c t f => "if " ++ c.text ++ " \x7b" ++ Block.text t ++ "\x7d else \x7b" ++ Block.text f ++ "\x7d"
  | .loop c body => "while " ++ c.text ++ " \x7b" ++ Block.text body ++ "\x7d"

def Block.text : List Piece → String
  | [] => ""
  | p :: rest => p.text ++ Block.tailText rest

def Block.tailText : List Piece → String
  | [] => ""
  | p :: rest => "; " ++ p.text ++ Block.tailText rest

end

namespace Block

def reducible : Block → Bool
  | [.skip] => false
  | _ => true

/-- The first piece takes the step. One that is finished is dropped, and a choice makes way for the branch it takes. -/
def step (env : Env) : Block → Outcome Block
  | [] => ⟨.error .finished, env⟩
  | [.skip] => ⟨.error .finished, env⟩
  | .skip :: rest => ⟨.ok rest, env⟩
  | .assign x e :: rest =>
    if e.reducible then ⟨(e.step env).map (.assign x · :: rest), env⟩ else ⟨.ok (.skip :: rest), env.insert x e⟩
  | .ite c t f :: rest =>
    if c.reducible then ⟨(c.step env).map (.ite · t f :: rest), env⟩
    else ⟨c.truth.map fun b => (if b then t else f) ++ rest, env⟩
  | .loop c body :: rest => ⟨.ok (.ite c (body ++ [.loop c body]) [.skip] :: rest), env⟩

end Block

instance : Node Block where
  reducible := Block.reducible
  step := Block.step
  line env ps := Block.text ps ++ " " ++ env.text

/-! ### Flattening commutes with everything that shows -/

namespace Block

variable {ps qs rest : Block} {env : Env}

theorem tailText_append (ps qs : Block) : tailText (ps ++ qs) = tailText ps ++ tailText qs := by
  induction ps with
  | nil => simp [tailText]
  | cons p ps ih => simp [tailText, ih, String.append_assoc]

theorem tailText_eq (h : ps ≠ []) : tailText ps = "; " ++ text ps := by
  cases ps with
  | nil => exact absurd rfl h
  | cons p rest => simp [tailText, text, String.append_assoc]

theorem text_append (hp : ps ≠ []) (hq : qs ≠ []) : text (ps ++ qs) = text ps ++ "; " ++ text qs := by
  cases ps with
  | nil => exact absurd rfl hp
  | cons p rest => simp [text, tailText_append, tailText_eq hq, String.append_assoc]

theorem step_skip (h : rest ≠ []) : step env (.skip :: rest) = ⟨.ok rest, env⟩ := by
  cases rest with
  | nil => exact absurd rfl h
  | cons p rest => rfl

/-- What follows waits until the pieces before it are finished. -/
theorem step_append (hp : ps ≠ []) (hskip : ps ≠ [.skip]) (rest : Block) :
    step env (ps ++ rest) = (step env ps).map (· ++ rest) := by
  cases ps with
  | nil => exact absurd rfl hp
  | cons p ps =>
    cases p with
    | skip =>
      have hps : ps ≠ [] := fun h => hskip (h ▸ rfl)
      rw [List.cons_append, step_skip (by simp [hps]), step_skip hps]
      rfl
    | assign x e =>
      rw [List.cons_append, step, step]
      split
      · cases e.step env <;> rfl
      · rfl
    | ite c t f =>
      rw [List.cons_append, step, step]
      split
      · cases c.step env <;> rfl
      · cases c.truth with
        | error f => rfl
        | ok b => simp [Outcome.map, Except.map]
    | loop c body => rfl

end Block

namespace Stmt

theorem pieces_ne_nil (s : Stmt) : s.pieces ≠ [] := by
  induction s with
  | seq a b iha _ => simp [pieces, iha]
  | _ => simp [pieces]

theorem pieces_eq_skip {s : Stmt} : s.pieces = [.skip] ↔ s = .skip := by
  cases s with
  | seq a b =>
    -- two parts have two pieces at least
    have ha := List.length_pos_iff.2 a.pieces_ne_nil
    have hb := List.length_pos_iff.2 b.pieces_ne_nil
    refine ⟨fun h => ?_, fun h => by cases h⟩
    have hlen := congrArg List.length h
    simp only [pieces, List.length_append, List.length_singleton] at hlen
    omega
  | _ => simp [pieces]

theorem reducible_pieces (s : Stmt) : Block.reducible s.pieces = s.reducible := by
  by_cases h : s = .skip
  · subst h
    rfl
  · have hpieces : s.pieces ≠ [.skip] := fun hp => h (pieces_eq_skip.1 hp)
    have hblock : Block.reducible s.pieces = true := by
      unfold Block.reducible
      split
      · next hp => exact absurd hp hpieces
      · rfl
    rw [hblock]
    cases s with
    | skip => exact absurd rfl h
    | _ => rfl

theorem text_pieces (s : Stmt) : Block.text s.pieces = s.text := by
  induction s with
  | seq a b iha ihb => rw [pieces, Block.text_append a.pieces_ne_nil b.pieces_ne_nil, iha, ihb, text]
  | ite c t f iht ihf => simp [pieces, Block.text, Block.tailText, Piece.text, iht, ihf, text]
  | loop c body ih => simp [pieces, Block.text, Block.tailText, Piece.text, ih, text]
  | _ => simp [pieces, Block.text, Block.tailText, Piece.text, text]

/-- The pieces make the step that the statement makes. -/
theorem step_pieces (env : Env) (s : Stmt) : Block.step env s.pieces = (s.step env).map pieces := by
  induction s with
  | skip => rfl
  | assign x e =>
    rw [pieces, Block.step, Stmt.step_assign]
    split
    · cases e.step env <;> rfl
    · rfl
  | ite c t f _ _ =>
    rw [pieces, Block.step, Stmt.step_ite]
    split
    · cases c.step env <;> rfl
    · rcases c.truth with g | b
      · rfl
      · cases b <;> simp [Outcome.map, Except.map]
  | seq a b iha _ =>
    rw [pieces, Stmt.step_seq]
    by_cases ha : a = .skip
    · subst ha
      exact Block.step_skip b.pieces_ne_nil
    · have hskip : a.pieces ≠ [.skip] := fun h => ha (pieces_eq_skip.1 h)
      have hr : a.reducible = true := by
        cases a with
        | skip => exact absurd rfl ha
        | _ => rfl
      rw [Block.step_append a.pieces_ne_nil hskip, iha, if_pos hr, Outcome.map_map, Outcome.map_map]
      rfl
  | loop c body _ => rfl

end Stmt

/-! ### Machines under a map of their nodes -/

section
variable {ν μ : Type} [Node ν] [Node μ] {f : ν → μ}

/-- A map of nodes that keeps what a machine sees of them. -/
structure Node.Commutes (f : ν → μ) : Prop where
  reducible : ∀ a, Node.reducible (f a) = Node.reducible a
  line : ∀ env a, Node.line env (f a) = Node.line env a
  step : ∀ env a, Node.step env (f a) = (Node.step env a).map f

namespace Machine

def map (f : ν → μ) (m : Machine ν) : Machine μ := ⟨f m.node, m.env, m.config, m.steps⟩

def Ran.map (f : ν → μ) (r : Ran ν) : Ran μ := ⟨r.machine.map f, r.sink, r.result⟩

theorem step_map (h : Node.Commutes f) (m : Machine ν) : (m.map f).step = (m.step.1.map f, m.step.2) := by
  have hx : (m.map f).exhausted? = m.exhausted? := rfl
  have hs : Node.step (m.map f).env (m.map f).node = (Node.step m.env m.node).map f := h.step m.env m.node
  rw [step, step, hx, hs]
  cases m.exhausted? with
  | some n => rfl
  | none => rcases Node.step m.env m.node with ⟨g | b, env'⟩ <;> rfl

theorem run_map (h : Node.Commutes f) (fuel : Nat) (m : Machine ν) (sink : Sink) :
    (m.map f).run fuel sink = (m.run fuel sink).map (Ran.map f) := by
  induction fuel generalizing m sink with
  | zero => rfl
  | succ fuel ih =>
    have hline : (m.map f).line = m.line := congrArg (· ++ "\n") (h.line m.env m.node)
    have hred : (m.map f).reducible = m.reducible := h.reducible m.node
    rw [run, run, hline, hred, step_map h]
    rcases sink.write m.line with ⟨sink', _ | _⟩
    · rfl
    · cases m.reducible with
      | false => rfl
      | true =>
        rcases m.step with ⟨m', stop | u⟩
        · rfl
        · exact ih m' sink'

end Machine

end

theorem Stmt.pieces_commutes : Node.Commutes Stmt.pieces where
  reducible := Stmt.reducible_pieces
  line env s := congrArg (· ++ " " ++ env.text) s.text_pieces
  step := Stmt.step_pieces

/-! ### What a machine shows -/

structure Answer where
  result : Except Stop Unit
  /-- What the sink of a run holds; a step has none. -/
  traced : Option ByteArray
  env : Env
  steps : UInt64
  reducible : Bool
  text : String

namespace Machine

def answer (m : Machine Stmt) (result : Except Stop Unit) (traced : Option ByteArray) : Answer :=
  ⟨result, traced, m.env, m.steps, m.reducible, m.node.text⟩

/-- The answers to a list of requests. A run that has not ended when its fuel is spent is the last request to be
made, and has no answer. -/
def answers (fuel : Nat) : Machine Stmt → List Request → List Answer
  | _, [] => []
  | m, .step :: asked =>
    let (m', result) := m.step
    m'.answer result none :: answers fuel m' asked
  | m, .run sink :: asked =>
    match m.run fuel sink with
    | none => []
    | some r => r.machine.answer r.result (some r.sink.bytes) :: answers fuel r.machine asked

variable {m₁ m₂ : Machine Stmt}

theorem answer_congr (h : m₁.map Stmt.pieces = m₂.map Stmt.pieces) (result : Except Stop Unit)
    (traced : Option ByteArray) : m₁.answer result traced = m₂.answer result traced := by
  obtain ⟨s₁, env₁, config₁, k₁⟩ := m₁
  obtain ⟨s₂, env₂, config₂, k₂⟩ := m₂
  obtain ⟨hp, rfl, rfl, rfl⟩ : s₁.pieces = s₂.pieces ∧ env₁ = env₂ ∧ config₁ = config₂ ∧ k₁ = k₂ := by
    simpa [map] using h
  have htext : s₁.text = s₂.text := by rw [← s₁.text_pieces, hp, s₂.text_pieces]
  have hred : s₁.reducible = s₂.reducible := by rw [← s₁.reducible_pieces, hp, s₂.reducible_pieces]
  simp [answer, htext, Machine.reducible, Node.reducible, hred]

/-- The pieces are all that the answers depend on. -/
theorem answers_congr (fuel : Nat) (asked : List Request) (h : m₁.map Stmt.pieces = m₂.map Stmt.pieces) :
    m₁.answers fuel asked = m₂.answers fuel asked := by
  induction asked generalizing m₁ m₂ with
  | nil => rfl
  | cons req asked ih =>
    cases req with
    | step =>
      have hstep := congrArg step h
      rw [step_map Stmt.pieces_commutes, step_map Stmt.pieces_commutes] at hstep
      obtain ⟨hm, hresult⟩ := Prod.mk.inj hstep
      simp only [answers]
      rw [hresult, answer_congr hm, ih hm]
    | run sink =>
      have hrun := congrArg (run fuel · sink) h
      simp only [run_map Stmt.pieces_commutes] at hrun
      simp only [answers]
      generalize m₁.run fuel sink = ran₁ at hrun
      generalize m₂.run fuel sink = ran₂ at hrun
      cases ran₁ with
      | none =>
        cases ran₂ with
        | none => rfl
        | some r₂ => cases hrun
      | some r₁ =>
        cases ran₂ with
        | none => cases hrun
        | some r₂ =>
          obtain ⟨hm, hsink, hresult⟩ := Ran.mk.inj (Option.some.inj hrun)
          simp only [hsink, hresult]
          rw [answer_congr hm, ih hm]

end Machine

/-- Machines on two statements that differ only in the bracketing of sequences give the same answers to whatever is
asked of them. -/
theorem bracketing_is_unobservable (s t : Stmt) (h : s.pieces = t.pieces) (env : Env) (config : Config)
    (asked : List Request) (fuel : Nat) :
    (Machine.start s env config).answers fuel asked = (Machine.start t env config).answers fuel asked := by
  refine Machine.answers_congr fuel asked ?_
  simp [Machine.map, Machine.start, h]

theorem rebracketed_loop_answers_alike :
    let next : Stmt := .assign "x" (.binary .add (.var "x") (.lit (.num 1)))
    let copy : Stmt := .assign "y" (.var "x")
    let c : Expr := .binary .lt (.var "x") (.lit (.num 1))
    let s : Stmt := .loop c (.seq (.seq next copy) .skip)
    let t : Stmt := .loop c (.seq next (.seq copy .skip))
    let env : Env := Dict.empty.insert "x" (.lit (.num 0))
    let asked : List Request := [.step, .run (.bounded 40), .step, .run .unbounded, .step]
    s ≠ t ∧ s.pieces = t.pieces ∧
      (Machine.start s env ⟨some 18⟩).answers 20 asked =
        (Machine.start t env ⟨some 18⟩).answers 20 asked := by
  intro next copy c s t env asked
  have hpieces : s.pieces = t.pieces := by rfl
  exact ⟨by decide, hpieces, bracketing_is_unobservable s t hpieces env ⟨some 18⟩ asked 20⟩

end WhileLang
