import WhileLang.Proofs.History
import WhileLang.Proofs.Interchange
import WhileLang.Proofs.Variables

/-! What the engines ask of the primitive operations, and which faults they can report.
An operation takes its operands as they stand, so it is for the engines to see that
these are literals. To say so, the engines are run where every call is recorded
(`Watched`): the evaluator passes on the expressions that it gets back, the steps
whatever their guards let through. They come to the same there, and all operands on
record are literals (`Follows`). The guards also keep a step from being asked of a
part that has none, which leaves that fault to a node that is finished itself. -/

namespace WhileLang

inductive Call where
  | apply (op : Op) (l r : Expr)
  | truth (c : Expr)

namespace Call

def OnLiterals : Call → Prop
  | apply _ l r => (∃ a, l = .lit a) ∧ ∃ b, r = .lit b
  | truth c => ∃ v, c = .lit v

/-- A comparison of a number with a boolean, where the operands have the given kinds. -/
inductive Mixes : Call → Kind → Kind → Prop where
  | numberFirst (n : Int64) (b : Bool) : Mixes (.apply .lt (.lit (.num n)) (.lit (.bool b))) .number .boolean
  | booleanFirst (b : Bool) (n : Int64) : Mixes (.apply .lt (.lit (.bool b)) (.lit (.num n))) .boolean .number

end Call

inductive Op.Refuses : Op → Value → Value → Fault → Prop where
  | operands (op : Op) (a b : Value) : Refuses op a b (.operands op a.kind b.kind)
  | overflow (op : Op) (m n : Int64) : Refuses op (.num m) (.num n) (.overflow op m n)
  | booleans (a b : Bool) : Refuses .lt (.bool a) (.bool b) (.booleans a b)
  | numberFirst (n : Int64) (b : Bool) : Refuses .lt (.num n) (.bool b) (.incomparable .number .boolean)
  | booleanFirst (b : Bool) (n : Int64) : Refuses .lt (.bool b) (.num n) (.incomparable .boolean .number)

theorem Op.refuses_of_checked {op : Op} {exact : Int → Int → Int} {a b : Value} {f : Fault}
    (h : op.checked exact (.lit a) (.lit b) = .error f) : op.Refuses a b f := by
  unfold Op.checked at h
  split at h
  · next m n hm hn =>
    cases hm
    cases hn
    split at h
    · cases h
    · cases h
      exact .overflow op m n
  · cases h
    exact .operands op a b

theorem Op.refuses_of_error {op : Op} {a b : Value} {f : Fault} (h : op.apply (.lit a) (.lit b) = .error f) :
    op.Refuses a b f := by
  cases op with
  | add => exact Op.refuses_of_checked h
  | mul => exact Op.refuses_of_checked h
  | lt =>
    cases a with
    | num m =>
      cases b with
      | num n => cases h
      | bool c => cases h; exact .numberFirst m c
    | bool c =>
      cases b with
      | num n => cases h; exact .booleanFirst c n
      | bool d => cases h; exact .booleans c d

/-! ### Engines under observation -/

/-- A computation that records its calls. It may run out of fuel, and it leaves an environment behind also where it
fails. -/
def Watched (α : Type) : Type := Env → List Call × Option (Outcome α)

namespace Watched

variable {α β : Type}

instance : Monad Watched where
  pure a := fun env => ([], some ⟨.ok a, env⟩)
  bind x g := fun env =>
    match x env with
    | (calls, some ⟨.ok a, env'⟩) => (calls ++ (g a env').1, (g a env').2)
    | (calls, some ⟨.error f, env'⟩) => (calls, some ⟨.error f, env'⟩)
    | (calls, none) => (calls, none)

def spent : Watched α := fun _ => ([], none)

def fail (f : Fault) : Watched α := fun env => ([], some ⟨.error f, env⟩)

def lookup (x : Ident) : Watched Expr := fun env => ([], some ⟨env.lookup x, env⟩)

def assign (x : Ident) (e : Expr) : Watched Unit := fun env => ([], some ⟨.ok (), env.insert x e⟩)

def apply (op : Op) (l r : Expr) : Watched Expr := fun env =>
  ([.apply op l r], some ⟨(op.apply l r).map .lit, env⟩)

def truth (c : Expr) : Watched Bool := fun env => ([.truth c], some ⟨c.truth, env⟩)

section
variable {x : Watched α} {g : α → Watched β} {env env' : Env}

theorem bind_of_ok {a : α} (h : (x env).2 = some ⟨.ok a, env'⟩) :
    (x >>= g) env = ((x env).1 ++ (g a env').1, (g a env').2) := by
  rcases hx : x env with ⟨calls, o⟩
  rw [hx] at h
  cases h
  simp only [Bind.bind, hx]

theorem bind_of_error {f : Fault} (h : (x env).2 = some ⟨.error f, env'⟩) :
    (x >>= g) env = ((x env).1, some ⟨.error f, env'⟩) := by
  rcases hx : x env with ⟨calls, o⟩
  rw [hx] at h
  cases h
  simp only [Bind.bind, hx]

theorem bind_of_none (h : (x env).2 = none) : (x >>= g) env = ((x env).1, none) := by
  rcases hx : x env with ⟨calls, o⟩
  rw [hx] at h
  cases h
  simp only [Bind.bind, hx]

end

end Watched

def Expr.watchedStep (e : Expr) : Watched Expr := e.stepIn .fail .lookup .apply

def Stmt.watchedStep (s : Stmt) : Watched Stmt := s.stepIn .fail Expr.watchedStep .assign .truth

def Expr.watchedEval (fuel : Nat) (e : Expr) : Watched Expr := e.evalIn .spent .lit .lookup .apply fuel

def Expr.watchedTest (fuel : Nat) (c : Expr) : Watched Bool := c.testIn (Expr.watchedEval fuel) .truth

def Stmt.watchedExec (fuel : Nat) (s : Stmt) : Watched Unit :=
  s.execIn .spent Expr.watchedEval Expr.watchedTest .assign fuel

/-! ### What is on record -/

/-- An observed computation comes to `o`, with calls on literals only; and where it reports operands that cannot be
compared, it has compared a number with a boolean. -/
structure Watched.Follows {α : Type} (x : Watched α) (env : Env) (o : Option (Outcome α)) : Prop where
  answer : (x env).2 = o
  operands : ∀ k ∈ (x env).1, k.OnLiterals
  mixed : ∀ l r env', o = some ⟨.error (.incomparable l r), env'⟩ → ∃ k ∈ (x env).1, k.Mixes l r

namespace Watched.Follows

variable {α β : Type} {env env' : Env} {x : Watched α} {g : α → Watched β} {o : Option (Outcome β)}

theorem pure (a : α) (env : Env) : (Pure.pure a : Watched α).Follows env (some ⟨.ok a, env⟩) :=
  ⟨rfl, by simp [Pure.pure], by simp⟩

theorem spent (env : Env) : (Watched.spent : Watched α).Follows env none :=
  ⟨rfl, by simp [Watched.spent], by simp⟩

theorem fail {f : Fault} (hf : ∀ l r, f ≠ .incomparable l r) (env : Env) :
    (Watched.fail f : Watched α).Follows env (some ⟨.error f, env⟩) :=
  ⟨rfl, by simp [Watched.fail], by simp [hf]⟩

theorem lookup (y : Ident) (env : Env) : (Watched.lookup y).Follows env (some ⟨env.lookup y, env⟩) := by
  refine ⟨rfl, by simp [Watched.lookup], ?_⟩
  unfold Env.lookup
  cases env.get? y <;> simp

theorem assign (y : Ident) (e : Expr) (env : Env) :
    (Watched.assign y e).Follows env (some ⟨.ok (), env.insert y e⟩) :=
  ⟨rfl, by simp [Watched.assign], by simp⟩

theorem apply (op : Op) (a b : Value) (env : Env) : (Watched.apply op (.lit a) (.lit b)).Follows env
    (some ⟨(op.apply (.lit a) (.lit b)).map .lit, env⟩) := by
  refine ⟨rfl, by simp [Watched.apply, Call.OnLiterals], fun l r env' h => ?_⟩
  have hfault : op.apply (.lit a) (.lit b) = .error (.incomparable l r) :=
    fault_of_map (Outcome.mk.inj (Option.some.inj h)).1
  refine ⟨_, List.mem_singleton_self _, ?_⟩
  cases Op.refuses_of_error hfault with
  | numberFirst n b => exact .numberFirst n b
  | booleanFirst b n => exact .booleanFirst b n

theorem truth (v : Value) (env : Env) : (Watched.truth (.lit v)).Follows env (some ⟨(Expr.lit v).truth, env⟩) := by
  refine ⟨rfl, by simp [Watched.truth, Call.OnLiterals], ?_⟩
  cases v <;> simp [Expr.truth]

theorem bind {a : α} (h : x.Follows env (some ⟨.ok a, env'⟩)) (h' : (g a).Follows env' o) :
    (x >>= g).Follows env o := by
  have hx : (x >>= g) env = ((x env).1 ++ (g a env').1, (g a env').2) := bind_of_ok h.answer
  refine ⟨by rw [hx]; exact h'.answer, ?_, fun l r env₁ ho => ?_⟩
  · rw [hx]
    exact List.forall_mem_append.2 ⟨h.operands, h'.operands⟩
  · obtain ⟨k, hk, hmix⟩ := h'.mixed l r env₁ ho
    rw [hx]
    exact ⟨k, List.mem_append_right _ hk, hmix⟩

/-- What fails or runs out of fuel has made all its calls. -/
theorem stop {f : Fault} (h : x.Follows env (some ⟨.error f, env'⟩)) :
    (x >>= g).Follows env (some ⟨.error f, env'⟩) := by
  have hx : (x >>= g) env = ((x env).1, some ⟨.error f, env'⟩) := bind_of_error h.answer
  refine ⟨by rw [hx], by rw [hx]; exact h.operands, fun l r env₁ ho => ?_⟩
  rw [hx]
  exact h.mixed l r env₁ (by cases ho; rfl)

theorem starve (h : x.Follows env none) : (x >>= g).Follows env none := by
  have hx : (x >>= g) env = ((x env).1, none) := bind_of_none h.answer
  exact ⟨by rw [hx], by rw [hx]; exact h.operands, by simp⟩

theorem map {p : Outcome α} (h : x.Follows env (some p)) (F : α → β) :
    (x >>= fun a => Pure.pure (F a)).Follows env (some (p.map F)) := by
  obtain ⟨f | a, env'⟩ := p
  · exact h.stop
  · exact h.bind (.pure (F a) env')

end Watched.Follows

theorem Expr.watchedStep_follows (e : Expr) (env : Env) : e.watchedStep.Follows env (some ⟨e.step env, env⟩) := by
  induction e with
  | lit v => exact .fail (by simp) env
  | var x => exact .lookup x env
  | binary op l r ihl ihr =>
    rw [Expr.watchedStep, Expr.stepIn, Expr.step_binary]
    split
    · exact ihl.map fun l' => Expr.binary op l' r
    · next hl =>
      obtain ⟨a, rfl⟩ := Expr.reducible_eq_false hl
      split
      · exact ihr.map fun r' => Expr.binary op (.lit a) r'
      · next hr =>
        obtain ⟨b, rfl⟩ := Expr.reducible_eq_false hr
        exact .apply op a b env

theorem Stmt.watchedStep_follows (s : Stmt) (env : Env) : s.watchedStep.Follows env (some (s.step env)) := by
  induction s with
  | skip => exact .fail (by simp) env
  | assign x e =>
    rw [Stmt.watchedStep, Stmt.stepIn, Stmt.step_assign]
    split
    · exact (e.watchedStep_follows env).map (Stmt.assign x)
    · exact (Watched.Follows.assign x e env).map fun _ => Stmt.skip
  | ite c t f _ _ =>
    rw [Stmt.watchedStep, Stmt.stepIn, Stmt.step_ite]
    split
    · exact (c.watchedStep_follows env).map (Stmt.ite · t f)
    · next hc =>
      obtain ⟨v, rfl⟩ := Expr.reducible_eq_false hc
      exact (Watched.Follows.truth v env).map fun b => if b then t else f
  | seq a b iha _ =>
    rw [Stmt.watchedStep, Stmt.stepIn, Stmt.step_seq]
    split
    · exact iha.map (Stmt.seq · b)
    · exact .pure b env
  | loop c body _ => exact .pure _ env

theorem Expr.watchedEval_follows (fuel : Nat) (e : Expr) (env : Env) :
    (e.watchedEval fuel).Follows env ((e.eval fuel env).map fun w => ⟨w.map Expr.lit, env⟩) := by
  induction fuel generalizing e with
  | zero => exact .spent env
  | succ fuel ih =>
    cases e with
    | lit v => exact .pure (Expr.lit v) env
    | var x =>
      have hx := Watched.Follows.lookup x env
      rw [Expr.watchedEval, Expr.evalIn, Expr.eval_var]
      cases h : env.lookup x with
      | error f =>
        rw [h] at hx
        exact hx.stop
      | ok e =>
        rw [h] at hx
        exact hx.bind (ih e)
    | binary op l r =>
      have hl := ih l
      have hr := ih r
      rw [Expr.watchedEval, Expr.evalIn, Expr.eval_binary]
      rcases hv : l.eval fuel env with _ | f | a <;> rw [hv] at hl
      · exact hl.starve
      · exact hl.stop
      · refine hl.bind ?_
        rcases hw : r.eval fuel env with _ | f | b <;> rw [hw] at hr
        · exact hr.starve
        · exact hr.stop
        · exact hr.bind (.apply op a b env)

theorem Expr.watchedTest_follows (fuel : Nat) (c : Expr) (env : Env) :
    (c.watchedTest fuel).Follows env ((c.test fuel env).map fun w => ⟨w, env⟩) := by
  have hc := c.watchedEval_follows fuel env
  rw [Expr.watchedTest, Expr.testIn, Expr.test_eq]
  rcases hv : c.eval fuel env with _ | f | v <;> rw [hv] at hc
  · exact hc.starve
  · exact hc.stop
  · exact hc.bind (.truth v env)

theorem Stmt.watchedExec_follows (fuel : Nat) (s : Stmt) (env : Env) :
    (s.watchedExec fuel).Follows env (s.exec fuel env) := by
  induction fuel generalizing s env with
  | zero => exact .spent env
  | succ fuel ih =>
    cases s with
    | skip => exact .pure () env
    | assign x e =>
      have he := e.watchedEval_follows fuel env
      rw [Stmt.watchedExec, Stmt.execIn, Stmt.exec_assign]
      rcases hv : e.eval fuel env with _ | f | v <;> rw [hv] at he
      · exact he.starve
      · exact he.stop
      · exact he.bind (.assign x (.lit v) env)
    | ite c t e =>
      have hc := c.watchedTest_follows fuel env
      rw [Stmt.watchedExec, Stmt.execIn, Stmt.exec_ite]
      rcases hb : c.test fuel env with _ | f | _ | _ <;> rw [hb] at hc
      · exact hc.starve
      · exact hc.stop
      · exact hc.bind (ih e env)
      · exact hc.bind (ih t env)
    | seq a b =>
      have ha := ih a env
      rw [Stmt.watchedExec, Stmt.execIn, Stmt.exec_seq]
      rcases hv : a.exec fuel env with _ | ⟨f | _, env'⟩ <;> rw [hv] at ha
      · exact ha.starve
      · exact ha.stop
      · exact ha.bind (ih b env')
    | loop c body =>
      have hc := c.watchedTest_follows fuel env
      have hbody := ih body env
      rw [Stmt.watchedExec, Stmt.execIn, Stmt.exec_loop]
      rcases hb : c.test fuel env with _ | f | _ | _ <;> rw [hb] at hc
      · exact hc.starve
      · exact hc.stop
      · exact hc.bind (.pure () env)
      · refine hc.bind ?_
        rcases hv : body.exec fuel env with _ | ⟨f | _, env'⟩ <;> rw [hv] at hbody
        · exact hbody.starve
        · exact hbody.stop
        · exact hbody.bind (ih (.loop c body) env')

/-! ### Which faults a run can end with -/

def Fault.PastEnd : Fault → Prop
  | irreducible _ => True
  | finished => True
  | _ => False

/-- A fault that lies in the program: no step was asked too many, and operands that could not be compared were a number
and a boolean. -/
structure Fault.Genuine (f : Fault) : Prop where
  within : ¬ f.PastEnd
  mixed : ∀ l r, f = .incomparable l r → l = .number ∧ r = .boolean ∨ l = .boolean ∧ r = .number

inductive Fault.Cause (env : Env) (xs : List Ident) : Fault → Prop where
  | unbound {x : Ident} : x ∈ xs → env.get? x = none → Cause env xs (.unbound x)
  | operation {op : Op} {a b : Value} {f : Fault} : op.Refuses a b f → Cause env xs f
  | condition (n : Int64) : Cause env xs (.condition (.lit (.num n)))

namespace Fault.Cause

variable {env : Env} {xs ys : List Ident} {f : Fault}

theorem mono (h : f.Cause env xs) (hxs : xs ⊆ ys) : f.Cause env ys := by
  cases h with
  | unbound hx hnone => exact .unbound (hxs hx) hnone
  | operation h => exact .operation h
  | condition n => exact .condition n

theorem genuine (h : f.Cause env xs) : f.Genuine := by
  cases h with
  | unbound _ _ => exact ⟨id, by simp⟩
  | condition n => exact ⟨id, by simp⟩
  | operation h => cases h <;> exact ⟨id, by simp⟩

theorem of_truth {v : Value} (h : (Expr.lit v).truth = .error f) : f.Cause env xs := by
  cases v with
  | num n => cases h; exact .condition n
  | bool b => cases h

end Fault.Cause

section
variable {env env' : Env} {f : Fault}

theorem Expr.cause_of_step {e : Expr} (hr : e.reducible = true) (h : e.step env = .error f) : f.Cause env e.vars := by
  induction e with
  | lit v => cases hr
  | var x =>
    have hnone := Env.lookup_eq_error h
    rw [Expr.step_var, Env.lookup, hnone] at h
    cases h
    exact .unbound (List.mem_singleton_self x) hnone
  | binary op l r ihl ihr =>
    rw [Expr.step_binary] at h
    split at h
    · next hl => exact (ihl hl (fault_of_map h)).mono (List.subset_append_left _ _)
    · next hl =>
      obtain ⟨a, rfl⟩ := Expr.reducible_eq_false hl
      split at h
      · next hr => exact (ihr hr (fault_of_map h)).mono (List.subset_append_right _ _)
      · next hr =>
        obtain ⟨b, rfl⟩ := Expr.reducible_eq_false hr
        exact .operation (Op.refuses_of_error (fault_of_map h))

theorem Stmt.cause_of_step {s : Stmt} (hr : s.reducible = true) (h : (s.step env).result = .error f) :
    f.Cause env s.vars := by
  induction s with
  | skip => cases hr
  | assign x e =>
    rw [Stmt.step_assign] at h
    split at h
    · next he => exact Expr.cause_of_step he (fault_of_map h)
    · cases h
  | ite c t e _ _ =>
    rw [Stmt.step_ite] at h
    split at h
    · next hc => exact (Expr.cause_of_step hc (fault_of_map h)).mono (List.subset_append_left _ _)
    · next hc =>
      obtain ⟨v, rfl⟩ := Expr.reducible_eq_false hc
      exact .of_truth (fault_of_map h)
  | seq a b iha _ =>
    rw [Stmt.step_seq] at h
    split at h
    · next ha => exact (iha ha (fault_of_map h)).mono (List.subset_append_left _ _)
    · cases h
  | loop c body _ => cases h

end

class GuardedNode (ν : Type) [Node ν] : Prop extends AtomicNode ν where
  genuine {env env' : Env} {a : ν} {f : Fault} :
    Node.reducible a = true → Node.step env a = ⟨.error f, env'⟩ → f.Genuine

instance : GuardedNode Expr where
  genuine hr hs := (Expr.cause_of_step hr (congrArg Outcome.result hs)).genuine

instance : GuardedNode Stmt where
  genuine hr hs := (Stmt.cause_of_step hr (congrArg Outcome.result hs)).genuine

section
variable {ν : Type} [Node ν] [GuardedNode ν] {env env' : Env} {a : ν} {f : Fault} {n fuel : Nat}

theorem Ends.genuine (h : Ends n env a ⟨.error f, env'⟩) : f.Genuine := by
  obtain ⟨b, -, hr, hs⟩ := h.last_step
  exact GuardedNode.genuine hr hs

theorem Machine.run_genuine {m : Machine ν} {sink : Sink} {r : Machine.Ran ν} (h : m.run fuel sink = some r)
    (hf : r.result = .error (.fault f)) : f.Genuine := by
  obtain ⟨hr, hs⟩ := Machine.run_fault h hf
  exact GuardedNode.genuine hr hs

end

/-- Evaluations and runs, of any machine into any sink, end with genuine faults only. A step is refused for want of one
exactly where the node itself is finished, whatever its parts are. And all that either engine ever asks of a primitive
operation is asked of literals. -/
theorem misuse_is_unreachable :
    (∀ (e : Expr) (env : Env), (∀ fuel f, e.eval fuel env = some (.error f) → f.Genuine) ∧
      ((∃ f, e.step env = .error f ∧ f.PastEnd) ↔ ∃ v, e = .lit v) ∧
      e.watchedStep.Follows env (some ⟨e.step env, env⟩) ∧
      ∀ fuel, (e.watchedEval fuel).Follows env ((e.eval fuel env).map fun w => ⟨w.map .lit, env⟩)) ∧
    (∀ (s : Stmt) (env : Env), (∀ fuel f env', s.exec fuel env = some ⟨.error f, env'⟩ → f.Genuine) ∧
      ((∃ f, (s.step env).result = .error f ∧ f.PastEnd) ↔ s = .skip) ∧
      s.watchedStep.Follows env (some (s.step env)) ∧
      ∀ fuel, (s.watchedExec fuel).Follows env (s.exec fuel env)) ∧
    (∀ (m : Machine Expr) (fuel : Nat) (sink : Sink) (r : Machine.Ran Expr) (f : Fault),
      m.run fuel sink = some r → r.result = .error (.fault f) → f.Genuine) ∧
    ∀ (m : Machine Stmt) (fuel : Nat) (sink : Sink) (r : Machine.Ran Stmt) (f : Fault),
      m.run fuel sink = some r → r.result = .error (.fault f) → f.Genuine := by
  refine ⟨fun e env => ⟨fun fuel f h => ?_, ⟨?_, ?_⟩, e.watchedStep_follows env, fun fuel => ?_⟩,
    fun s env => ⟨fun fuel f env' h => ?_, ⟨?_, ?_⟩, s.watchedStep_follows env, fun fuel => ?_⟩, ?_, ?_⟩
  · obtain ⟨n, hn⟩ := Expr.eval_iff_ends.1 ⟨fuel, h⟩
    exact hn.genuine
  · rintro ⟨f, hf, hend⟩
    exact Expr.reducible_eq_false fun hr => (Expr.cause_of_step hr hf).genuine.within hend
  · rintro ⟨v, rfl⟩
    exact ⟨.irreducible v, rfl, trivial⟩
  · exact e.watchedEval_follows fuel env
  · obtain ⟨n, hn⟩ := Stmt.exec_iff.1 ⟨fuel, h⟩
    exact (Stmt.executes_error_iff.1 hn).genuine
  · rintro ⟨f, hf, hend⟩
    exact Stmt.reducible_eq_false fun hr => (Stmt.cause_of_step hr hf).genuine.within hend
  · rintro rfl
    exact ⟨.finished, rfl, trivial⟩
  · exact s.watchedExec_follows fuel env
  · exact fun m fuel sink r f h hf => Machine.run_genuine h hf
  · exact fun m fuel sink r f h hf => Machine.run_genuine h hf

/-- The variable `x` leads to a comparison of `y`, which leads to a sum, with a boolean. Both evaluators end with the
fault of that comparison, and so do both machines, one of them broken in on where it stands at its last step. -/
theorem mixed_comparison_behind_bindings :
    let sum : Expr := .binary .add (.lit (.num 1)) (.lit (.num 2))
    let env : Env := (Dict.empty.insert "x" (.binary .lt (.var "y") (.lit (.bool true)))).insert "y" sum
    let s : Stmt := .ite (.var "x") .skip .skip
    let f : Fault := .incomparable .number .boolean
    let m : Machine Stmt := ⟨.ite (.binary .lt (.lit (.num 3)) (.lit (.bool true))) .skip .skip, env, ⟨some 4⟩, 3⟩
    ((Expr.var "x").eval 9 env = some (.error f) ∧ f.Genuine) ∧
    (s.exec 9 env = some ⟨.error f, env⟩ ∧ f.Genuine) ∧
    (∃ r, (Machine.start (Expr.var "x") env ⟨none⟩).run 9 .unbounded = some r ∧ r.result = .error (.fault f) ∧
      f.Genuine) ∧
    ∃ r, m.run 9 (.bounded 100) = some r ∧ r.result = .error (.fault f) ∧ f.Genuine := by
  intro sum env s f m
  obtain ⟨hexpr, hstmt, hexprs, hstmts⟩ := misuse_is_unreachable
  have heval : (Expr.var "x").eval 9 env = some (.error f) := rfl
  have hexec : s.exec 9 env = some ⟨.error f, env⟩ := rfl
  exact ⟨⟨heval, (hexpr _ env).1 9 f heval⟩, ⟨hexec, (hstmt s env).1 9 f env hexec⟩,
    ⟨_, rfl, rfl, hexprs (Machine.start (Expr.var "x") env ⟨none⟩) 9 .unbounded _ f rfl rfl⟩,
    ⟨_, rfl, rfl, hstmts m 9 (.bounded 100) _ f rfl rfl⟩⟩

end WhileLang
