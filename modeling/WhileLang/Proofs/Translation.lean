import WhileLang.Proofs.Frame
import WhileLang.Proofs.QuotedText
import WhileLang.Proofs.TermRules
import WhileLang.Proofs.ValueText

/-! What a generated program does is what its statement does from the empty
environment. The store of the program holds each value as its text, and this is
the whole relation between the two: as long as all bindings are literals, the
term of a statement takes the texts of one environment to the texts of the next
(`exec_yields`), and aborts for every fault.

That the program ends only if the statement does is the other direction, by
induction on the fuel of the program (`executes_of_body`). Expressions need none
there: from literals every expression ends. -/

namespace WhileLang

open Code

def Env.texts (env : Env) : Dict String where
  entries := env.entries.map fun b => (b.1, b.2.text)
  increasing := by
    unfold Increasing
    rw [List.pairwise_map]
    exact env.increasing

theorem lookup_map_text (l : List (String × Expr)) (x : Ident) :
    (l.map fun b => (b.1, b.2.text)).lookup x = (l.lookup x).map Expr.text := by
  induction l with
  | nil => rfl
  | cons b rest ih =>
    obtain ⟨y, e⟩ := b
    simp only [List.map_cons, List.lookup_cons]
    split
    · rfl
    · exact ih

theorem Env.get?_texts (env : Env) (x : Ident) : env.texts.get? x = (env.get? x).map Expr.text :=
  lookup_map_text env.entries x

theorem Env.texts_insert (env : Env) (x : Ident) (v : Value) :
    Env.texts (env.insert x (.lit v)) = env.texts.insert x v.text := by
  apply Dict.ext_get?
  intro y
  simp only [Env.get?_texts, Dict.get?_insert]
  split
  · rfl
  · rfl

/-- What a program answers for a result; every fault makes it abort. -/
def Code.answer {α : Type} (asDatum : α → Datum) : Except Fault α → Except Trap Datum
  | .ok a => .ok (asDatum a)
  | .error _ => .error .aborted

section
variable {env : Env} {σ : Scope} {a : Term}

/-- Sum and product differ only in what they compute. -/
theorem Op.checked_yields (op : Op) (exact : Int → Int → Int) {t l r : Term} {m n : Int64}
    (ht : ∀ fuel, t.eval (fuel + 1) σ = (do
      let m ← asNumber (← l.eval fuel σ)
      let n ← asNumber (← r.eval fuel σ)
      return .number (← orAbort (word? (exact m.toInt n.toInt)))))
    (hl : l.Yields σ (.ok (.number m))) (hr : r.Yields σ (.ok (.number n))) :
    (Term.display t).Yields σ
      (answer (fun v => .text v.text) (op.checked exact (.lit (.num m)) (.lit (.num n)))) := by
  cases hw : word? (exact m.toInt n.toInt) with
  | none =>
    have hstop : t.Yields σ (.error .aborted) := .onNumbers ht hl hr (by simp [hw, orAbort])
    simp only [Op.checked, hw, answer]
    exact .stop (fun _ => rfl) hstop
  | some k =>
    have hsum : t.Yields σ (.ok (.number k)) := .onNumbers ht hl hr (by simp [hw, orAbort])
    simp only [Op.checked, hw, answer]
    exact .display hsum rfl

/-- An operator whose operands were read as numbers. -/
theorem Op.term_yields (op : Op) {m n : Int64} (hl : σ.get? "l" = some (.number m))
    (hr : σ.get? "r" = some (.number n)) :
    (Term.display (op.term (.var "l") (.var "r"))).Yields σ
      (answer (fun v => .text v.text) (op.apply (.lit (.num m)) (.lit (.num n)))) := by
  have hl' := Term.Yields.var hl
  have hr' := Term.Yields.var hr
  cases op with
  | add => exact Op.checked_yields .add (· + ·) (fun _ => rfl) hl' hr'
  | mul => exact Op.checked_yields .mul (· * ·) (fun _ => rfl) hl' hr'
  | lt =>
    refine .display (.onNumbers (fun _ => rfl) hl' hr' rfl) ?_
    cases decide (m < n) <;> rfl

/-- A text that is not a number's makes the operator abort; a boolean operand is a fault. -/
theorem Op.apply_bool_left (op : Op) (c : Bool) (v : Value) :
    answer (fun v => .text v.text) (op.apply (.lit (.bool c)) (.lit v)) = .error .aborted := by
  cases op <;> cases v <;> rfl

theorem Op.apply_bool_right (op : Op) (m : Int64) (c : Bool) :
    answer (fun v => .text v.text) (op.apply (.lit (.num m)) (.lit (.bool c))) = .error .aborted := by
  cases op <;> rfl

/-- Both operands are evaluated before an operand of the wrong kind is a fault, where the program aborts at the
first text that is no number. Either way it aborts. -/
theorem Expr.binary_yields (op : Op) {l r : Expr} {v : Value} {w : Except Fault Value}
    (hl : ∀ {σ a}, a.Yields σ (.ok (.store env.texts)) → (Term.apply l.term a).Yields σ (.ok (.text v.text)))
    (hr : ∀ {σ a}, a.Yields σ (.ok (.store env.texts)) →
      (Term.apply r.term a).Yields σ (answer (fun v => .text v.text) w))
    (ha : a.Yields σ (.ok (.store env.texts))) :
    (Term.apply (Expr.binary op l r).term a).Yields σ
      (answer (fun v => .text v.text) (w.bind fun w => op.apply (.lit v) (.lit w))) := by
  refine .apply ha ?_
  have hl' := hl (.bound σ "e" (.store env.texts))
  cases v with
  | bool c =>
    have habort : answer (fun v => .text v.text) (w.bind fun w => op.apply (.lit (.bool c)) (.lit w)) =
        .error .aborted := by
      cases w with
      | error f => rfl
      | ok w => exact Op.apply_bool_left op c w
    rw [habort]
    exact .letNumber_unread hl' (readNumber?_bool c)
  | num m =>
    refine .letNumber hl' (readNumber?_num m) ?_
    have he : ((σ.insert "e" (.store env.texts)).insert "l" (.number m)).get? "e" = some (.store env.texts) := by
      simp [Dict.get?_insert]
    have hr' := hr (.var he)
    rcases w with f | n | c
    · exact .stop (fun _ => rfl) hr'
    · refine .letNumber hr' (readNumber?_num n) (Op.term_yields op ?_ (Dict.get?_insert_self ..))
      simp [Dict.get?_insert]
    · rw [Except.bind, Op.apply_bool_right]
      exact .letNumber_unread hr' (readNumber?_bool c)

theorem Expr.Evaluates.term_yields {e : Expr} {w : Except Fault Value} {n : Nat} (h : e.Evaluates env w n)
    (hs : env.Settled) : ∀ {σ : Scope} {a : Term}, a.Yields σ (.ok (.store env.texts)) →
      (Term.apply e.term a).Yields σ (answer (fun v => .text v.text) w) := by
  induction h with
  | lit v => intro σ a ha; exact .apply ha (.text v.text)
  | @unbound x f hx =>
    intro σ a ha
    have hnone : env.texts.get? x = none := by rw [Env.get?_texts, Env.lookup_eq_error hx]; rfl
    exact .apply ha (.entry_missing (.bound ..) hnone)
  | @var x e w n hx h _ =>
    intro σ a ha
    -- what a variable stands for is a literal, so its text is the value's
    obtain ⟨v, rfl⟩ := hs x e (Env.lookup_eq_ok hx)
    have hsome : env.texts.get? x = some v.text := by rw [Env.get?_texts, Env.lookup_eq_ok hx]; rfl
    cases h with
    | lit => exact .apply ha (.entry (.bound ..) hsome)
  | leftFault _ ih =>
    intro σ a ha
    exact .apply ha (.stop (fun _ => rfl) (ih (.bound ..)))
  | rightFault _ _ ihl ihr =>
    intro σ a ha
    exact Expr.binary_yields _ ihl ihr ha
  | @applyFault op _ _ _ _ _ _ _ _ _ hv ihl ihr =>
    intro σ a ha
    have := Expr.binary_yields op ihl ihr ha
    rwa [Except.bind, hv] at this
  | @apply op _ _ _ _ _ _ _ _ _ hv ihl ihr =>
    intro σ a ha
    have := Expr.binary_yields op ihl ihr ha
    rwa [Except.bind, hv] at this

theorem Expr.Tests.term_yields {c : Expr} {w : Except Fault Bool} {n : Nat} (h : c.Tests env w n)
    (hs : env.Settled) (he : σ.get? "e" = some (.store env.texts)) :
    c.conditionTerm.Yields σ (answer .truth w) := by
  have he' : (Term.borrow (.var "e")).Yields σ (.ok (.store env.texts)) := .borrow (.var he)
  cases h with
  | fault hc => exact .stop (fun _ => rfl) (hc.term_yields hs he')
  | @truth v n hc =>
    have hv := hc.term_yields hs he'
    cases v with
    | num m => exact .truth_unread hv (readTruth?_num m)
    | bool b => exact .truth hv (readTruth?_bool b)

theorem Expr.tests_of_settled (hs : env.Settled) (c : Expr) : ∃ w n, c.Tests env w n :=
  Expr.tests_of_evaluates (c.evaluates_of_settled hs)

end

section
variable {env : Env} {σ : Scope} {a : Term} {s : Stmt} {r : Except Trap Datum} {d : Datum}

theorem Stmt.apply_yields (ha : a.Yields σ (.ok d)) (hb : s.bodyTerm.Yields (σ.insert "e" d) r) :
    (Term.apply s.term a).Yields σ r := by
  cases s <;> exact .apply ha hb

theorem Stmt.apply_stops {trap : Trap} (ha : a.Yields σ (.error trap)) :
    (Term.apply s.term a).Yields σ (.error trap) := by
  cases s <;> exact .stop (fun _ => rfl) ha

/-- A call that gives an answer got it from the body, with less fuel. -/
theorem Stmt.eval_apply {fuel : Nat} (ha : a.Yields σ (.ok d))
    (h : ((Term.apply s.term a).eval fuel σ).run = some r) :
    ∃ j, j < fuel ∧ (s.bodyTerm.eval j (σ.insert "e" d)).run = some r := by
  cases fuel with
  | zero => simp [Term.eval, ExceptT.run] at h
  | succ j =>
    refine ⟨j, by omega, ?_⟩
    cases s <;> exact ha.rest (f := fun d => Term.eval j (σ.insert "e" d) _) h

end

theorem Stmt.exec_yields : ∀ {fuel : Nat} {env : Env} {s : Stmt} {o : Outcome Unit}, s.exec fuel env = some o →
    env.Settled → ∀ {σ : Scope}, σ.get? "e" = some (.store env.texts) →
      s.bodyTerm.Yields σ (answer (fun _ => .store o.env.texts) o.result) := by
  intro fuel
  induction fuel with
  | zero => intro env s o h; simp at h
  | succ fuel ih =>
    intro env s o h hs σ he
    -- a part is called with the store `e`, and its body finds the store under the same name
    have call : ∀ {s : Stmt} {o : Outcome Unit}, s.exec fuel env = some o →
        (Term.apply s.term (.var "e")).Yields σ (answer (fun _ => .store o.env.texts) o.result) :=
      fun h => Stmt.apply_yields (.var he) (ih h hs (Dict.get?_insert_self ..))
    cases Stmt.round_of_exec h with
    | skip => exact .var he
    | assignFault hw =>
      obtain ⟨n, hn⟩ := Expr.evaluates_of_eval hw
      exact .stop (fun _ => rfl) (hn.term_yields hs (.borrow (.var he)))
    | @assign x e v hw =>
      obtain ⟨n, hn⟩ := Expr.evaluates_of_eval hw
      have he' : (σ.insert "v" (.text v.text)).get? "e" = some (.store env.texts) := by
        simpa [Dict.get?_insert] using he
      refine .letIn (hn.term_yields hs (.borrow (.var he))) (.insert (.bound ..) he' ?_)
      simp only [answer, Env.texts_insert]
      exact .bound ..
    | iteFault hw =>
      obtain ⟨n, hn⟩ := Expr.tests_of_test hw
      exact .stop (fun _ => rfl) (hn.term_yields hs he)
    | @ite c t f b o hw h =>
      obtain ⟨n, hn⟩ := Expr.tests_of_test hw
      refine .choose (hn.term_yields hs he) ?_
      cases b with
      | true => exact call h
      | false => exact call h
    | seqFault ha => exact Stmt.apply_stops (call ha)
    | seq ha hb =>
      obtain ⟨n, hn⟩ := Stmt.executes_of_exec ha
      exact Stmt.apply_yields (call ha) (ih hb (hn.framed.settled hs) (Dict.get?_insert_self ..))
    | loopFault hw =>
      obtain ⟨n, hn⟩ := Expr.tests_of_test hw
      exact .stop (fun _ => rfl) (hn.term_yields hs he)
    | loopDone hw =>
      obtain ⟨n, hn⟩ := Expr.tests_of_test hw
      exact .repeatWhile_done (hn.term_yields hs he) (.var he)
    | bodyFault hw hb =>
      obtain ⟨n, hn⟩ := Expr.tests_of_test hw
      exact .repeatWhile_stop (hn.term_yields hs he) (call hb)
    | again hw hb h =>
      obtain ⟨n, hn⟩ := Expr.tests_of_test hw
      obtain ⟨k, hk⟩ := Stmt.executes_of_exec hb
      exact .repeatWhile_again (hn.term_yields hs he) (call hb) (ih h (hk.framed.settled hs) (Dict.get?_insert_self ..))

theorem Stmt.executes_of_body : ∀ {fuel : Nat} {env : Env} {s : Stmt} {σ : Scope} {r : Except Trap Datum},
    env.Settled → σ.get? "e" = some (.store env.texts) → (s.bodyTerm.eval fuel σ).run = some r →
      ∃ o n, s.Executes env o n := by
  intro fuel
  induction fuel using Nat.strongRecOn with
  | ind fuel ih =>
    intro env s σ r hs he h
    have hscope : ∀ d : Datum, (σ.insert "e" d).get? "e" = some d := Dict.get?_insert_self σ "e"
    cases s with
    | skip => exact ⟨_, _, .skip env⟩
    | assign x e =>
      obtain ⟨w, n, hw⟩ := e.evaluates_of_settled hs
      cases w with
      | error f => exact ⟨_, _, .assignFault hw⟩
      | ok v => exact ⟨_, _, .assign hw⟩
    | ite c t f =>
      obtain ⟨w, m, hc⟩ := c.tests_of_settled hs
      cases w with
      | error g => exact ⟨_, _, .iteFault hc⟩
      | ok b =>
        cases fuel with
        | zero => simp [Term.eval, ExceptT.run] at h
        | succ fuel =>
          have hbranch := Term.Yields.choose_rest (hc.term_yields hs he) h
          cases b with
          | true =>
            obtain ⟨j, hj, hr⟩ := Stmt.eval_apply (.var he) hbranch
            obtain ⟨o, n, hn⟩ := ih j (by omega) hs (hscope _) hr
            exact ⟨o, _, .ite hc hn⟩
          | false =>
            obtain ⟨j, hj, hr⟩ := Stmt.eval_apply (.var he) hbranch
            obtain ⟨o, n, hn⟩ := ih j (by omega) hs (hscope _) hr
            exact ⟨o, _, .ite hc hn⟩
    | seq a b =>
      cases fuel with
      | zero => simp [Term.eval, ExceptT.run] at h
      | succ fuel =>
        -- the first statement is the argument of the second one's call
        have hfirst : ∃ q, ((Term.apply a.term (.var "e")).eval fuel σ).run = some q := by
          cases b <;> exact run_bind_first h
        obtain ⟨q, hq⟩ := hfirst
        obtain ⟨i, hi, hr⟩ := Stmt.eval_apply (.var he) hq
        obtain ⟨⟨w, env'⟩, m, hm⟩ := ih i (by omega) hs (hscope _) hr
        cases w with
        | error g => exact ⟨_, _, .seqFault hm⟩
        | ok u =>
          obtain ⟨k, hk⟩ := hm.exec
          have ha := Stmt.apply_yields (.var he) (Stmt.exec_yields hk hs (hscope _))
          obtain ⟨j, hj, hr'⟩ := Stmt.eval_apply ha h
          obtain ⟨o, n, hn⟩ := ih j hj (hm.framed.settled hs) (hscope _) hr'
          exact ⟨o, _, .seq hm hn⟩
    | loop c body =>
      obtain ⟨w, m, hc⟩ := c.tests_of_settled hs
      rcases w with g | _ | _
      · exact ⟨_, _, .loop (.iteFault hc)⟩
      · exact ⟨_, _, .loop (.ite hc (.skip env))⟩
      · cases fuel with
        | zero => simp [Term.eval, ExceptT.run] at h
        | succ fuel =>
          have hrest := Term.Yields.repeatWhile_rest (hc.term_yields hs he) h
          obtain ⟨q, hq⟩ := run_bind_first hrest
          obtain ⟨i, hi, hr⟩ := Stmt.eval_apply (.var he) hq
          obtain ⟨⟨w, env'⟩, n, hn⟩ := ih i (by omega) hs (hscope _) hr
          cases w with
          | error g => exact ⟨_, _, .loop (.ite hc (.seqFault hn))⟩
          | ok u =>
            obtain ⟨k, hk⟩ := hn.exec
            have hb := Stmt.apply_yields (.var he) (Stmt.exec_yields hk hs (hscope _))
            obtain ⟨o, p, hp⟩ := ih fuel (by omega) (s := .loop c body) (hn.framed.settled hs) (hscope _) (hb.rest hrest)
            exact ⟨o, _, .loop (.ite hc (.seq hn hp))⟩

def Code.mainScope : Scope := Dict.empty.insert "e" (.store .empty)

def Code.printed (m : Dict String) : String :=
  "\x7b" ++ ", ".intercalate (m.entries.map fun p => p.1 ++ ": " ++ p.2) ++ "\x7d\n"

theorem Code.runMain_eq (s : Stmt) (fuel : Nat) : runMain fuel (Program.actions ⟨s⟩) =
    ((Term.apply s.term (.var "e")).eval fuel mainScope >>= fun d => do
      return printed (← asStore d)).run := by
  refine congrArg ExceptT.run (bind_congr fun d => ?_)
  cases d with
  | store m => simp [runActions, inScope, asStore, asTexts, Dict.get?_insert, printed]
  | _ => simp [runActions, inScope, asStore, Dict.get?_insert]

theorem Env.printed_texts (env : Env) : printed env.texts = env.text ++ "\n" := by
  have hend : "\x7d\n" = "\x7d" ++ "\n" := by decide
  unfold printed Env.text Env.texts
  rw [List.map_map, hend, ← String.append_assoc]
  rfl

/-- What the program prints for an outcome of its statement; every fault makes it abort. -/
def Code.mainAnswer (o : Outcome Unit) : Except Trap String :=
  match o.result with
  | .ok () => .ok (o.env.text ++ "\n")
  | .error _ => .error .aborted

section
variable {s : Stmt} {o : Outcome Unit} {n : Nat}

theorem Stmt.Executes.call_yields (h : s.Executes .empty o n) :
    (Term.apply s.term (.var "e")).Yields mainScope (answer (fun _ => .store o.env.texts) o.result) := by
  obtain ⟨fuel, hf⟩ := h.exec
  exact Stmt.apply_yields (.bound ..) (Stmt.exec_yields hf Env.settled_empty (Dict.get?_insert_self ..))

theorem Code.runMain_of_call {fuel : Nat} (h : ((Term.apply s.term (.var "e")).eval fuel mainScope).run =
    some (answer (fun _ => .store o.env.texts) o.result)) :
    runMain fuel (Program.actions ⟨s⟩) = some (mainAnswer o) := by
  rw [runMain_eq]
  obtain ⟨w, env⟩ := o
  cases w with
  | error f => exact run_bind_error h
  | ok u =>
    rw [run_bind_ok h, mainAnswer, ← Env.printed_texts]
    rfl

theorem Stmt.Executes.runMain (h : s.Executes .empty o n) :
    ∃ fuel, runMain fuel (Program.actions ⟨s⟩) = some (mainAnswer o) := by
  obtain ⟨fuel, hf⟩ := h.call_yields.eval
  exact ⟨fuel, runMain_of_call hf⟩

theorem Stmt.Executes.runMain_unique {fuel : Nat} {r : Except Trap String} (h : s.Executes .empty o n)
    (hr : Code.runMain fuel (Program.actions ⟨s⟩) = some r) : r = mainAnswer o := by
  obtain ⟨q, hq⟩ := run_bind_first ((runMain_eq s fuel).symm.trans hr)
  cases h.call_yields.unique hq
  rw [runMain_of_call hq] at hr
  simpa using hr.symm

theorem Stmt.executes_of_runMain {fuel : Nat} {r : Except Trap String}
    (hr : Code.runMain fuel (Program.actions ⟨s⟩) = some r) : ∃ o n, s.Executes .empty o n := by
  obtain ⟨q, hq⟩ := run_bind_first ((runMain_eq s fuel).symm.trans hr)
  obtain ⟨j, _, hj⟩ := Stmt.eval_apply (.bound ..) hq
  exact Stmt.executes_of_body Env.settled_empty (Dict.get?_insert_self ..) hj

theorem Stmt.runMain_iff {r : Except Trap String} :
    (∃ fuel, Code.runMain fuel (Program.actions ⟨s⟩) = some r) ↔
      ∃ o, (∃ n, s.Executes .empty o n) ∧ mainAnswer o = r := by
  constructor
  · rintro ⟨fuel, hr⟩
    obtain ⟨o, n, hn⟩ := Stmt.executes_of_runMain hr
    exact ⟨o, ⟨n, hn⟩, (hn.runMain_unique hr).symm⟩
  · rintro ⟨o, ⟨n, hn⟩, rfl⟩
    exact hn.runMain

end

/-- The source is the text of a program of the generated language, in which every literal reads as the text it
stands for. The program prints exactly what the statement ends with, aborts exactly when the statement fails, runs
on exactly when the statement does, and never meets a term that has no meaning. -/
theorem generated_program_simulates (p : Program) :
    p.source = renderMain p.actions ∧
    (∀ x rest, Text.readQuoted? ((Text.quoted x).toList ++ rest) = some (x.toList, rest)) ∧
    (∀ out, (∃ fuel, runMain fuel p.actions = some (.ok out)) ↔
      ∃ env', (∃ fuel, p.statement.run fuel .empty = some (.ok env')) ∧ out = env'.text ++ "\n") ∧
    ((∃ fuel, runMain fuel p.actions = some (.error .aborted)) ↔
      ∃ f fuel, p.statement.run fuel .empty = some (.error f)) ∧
    ((∀ fuel, runMain fuel p.actions = none) ↔ ∀ fuel, p.statement.run fuel .empty = none) ∧
    ∀ fuel, runMain fuel p.actions ≠ some (.error .stuck) := by
  obtain ⟨s⟩ := p
  refine ⟨Program.source_eq_renderMain ⟨s⟩, Text.readQuoted?_quoted, ?_, ?_, ?_, ?_⟩
  · intro out
    rw [Stmt.runMain_iff]
    constructor
    · rintro ⟨⟨w, env'⟩, hs, ho⟩
      cases w with
      | error f => cases ho
      | ok u =>
        cases ho
        exact ⟨env', Stmt.run_iff.2 ⟨_, hs, rfl⟩, rfl⟩
    · rintro ⟨env', hrun, rfl⟩
      obtain ⟨⟨w, env₁⟩, hs, ho⟩ := Stmt.run_iff.1 hrun
      cases w with
      | error f => cases ho
      | ok u =>
        cases ho
        exact ⟨_, hs, rfl⟩
  · rw [Stmt.runMain_iff]
    constructor
    · rintro ⟨⟨w, env'⟩, hs, ho⟩
      cases w with
      | ok u => cases ho
      | error f => exact ⟨f, Stmt.run_iff.2 ⟨_, hs, rfl⟩⟩
    · rintro ⟨f, hrun⟩
      obtain ⟨⟨w, env₁⟩, hs, ho⟩ := Stmt.run_iff.1 hrun
      cases w with
      | ok u => cases ho
      | error g => exact ⟨_, hs, rfl⟩
  · -- an answer of either side is one of the statement, hence also one of the other
    simp only [Option.eq_none_iff_forall_ne_some]
    constructor
    · intro h fuel w hw
      obtain ⟨o, hs, _⟩ := Stmt.run_iff.1 ⟨fuel, hw⟩
      obtain ⟨k, hk⟩ := Stmt.runMain_iff.2 ⟨o, hs, rfl⟩
      exact h k _ hk
    · intro h fuel r hr
      obtain ⟨o, hs, _⟩ := Stmt.runMain_iff.1 ⟨fuel, hr⟩
      obtain ⟨k, hk⟩ := Stmt.run_iff.2 ⟨o, hs, rfl⟩
      exact h k _ hk
  · intro fuel h
    obtain ⟨⟨w, env'⟩, _, ho⟩ := Stmt.runMain_iff.1 ⟨fuel, h⟩
    cases w with
    | error f => cases ho
    | ok u => cases ho

/-- The text of an environment does not tell it apart: a name may hold a colon and a comma. So what is printed
does not say which environment was reached. -/
theorem printed_text_has_two_readings :
    ¬ ((∃ fuel, runMain fuel (Program.actions ⟨.assign "a: 1, b" (.lit (.num 2))⟩) =
        some (.ok (Env.text ((Dict.empty.insert "a" (.lit (.num 1))).insert "b" (.lit (.num 2))) ++ "\n"))) ↔
      ∃ fuel, (Stmt.assign "a: 1, b" (.lit (.num 2))).run fuel .empty =
        some (.ok ((Dict.empty.insert "a" (.lit (.num 1))).insert "b" (.lit (.num 2))))) := by
  have hn : (Stmt.assign "a: 1, b" (.lit (.num 2))).Executes .empty
      ⟨.ok (), Dict.empty.insert "a: 1, b" (.lit (.num 2))⟩ _ := .assign (.lit (.num 2))
  have htext : Env.text (Dict.empty.insert "a: 1, b" (.lit (.num 2))) =
      Env.text ((Dict.empty.insert "a" (.lit (.num 1))).insert "b" (.lit (.num 2))) := by decide
  intro h
  obtain ⟨k, hk⟩ := hn.runMain
  rw [mainAnswer, htext] at hk
  obtain ⟨fuel, hf⟩ := h.1 ⟨k, hk⟩
  have h₂ : (Stmt.assign "a: 1, b" (.lit (.num 2))).exec 2 .empty =
      some ⟨.ok (), Dict.empty.insert "a: 1, b" (.lit (.num 2))⟩ := rfl
  have hends := (Stmt.exec_mono (Nat.le_max_left fuel 2) (Stmt.run_ok_iff.1 hf)).symm.trans
    (Stmt.exec_mono (Nat.le_max_right fuel 2) h₂)
  -- only one of the two binds the name before the colon
  have hname := congrArg (fun o : Option (Outcome Unit) => o.map fun o => o.env.get? "a") hends
  simp [Dict.get?_insert, Dict.get?_empty] at hname

end WhileLang
