import WhileLang.Proofs.Budget
import WhileLang.Proofs.Frame

/-! A run depends only on the names that it can read. Let two environments agree on a set
of names that holds the variables of a statement and that no binding leads out of. Two
machines on the statement, one in each environment, then make the same steps: the next
step reads inside the set, what it writes is a literal and the same for both, and the
set is as good for what is left to do (`Confined.step`). What the environments differ
in lies outside and is carried along. -/

namespace WhileLang

/-- Every name has one binding in both environments, or has in each of them the binding it had in the first place. -/
def Env.ChangedAlike (env₁ env₂ env₁' env₂' : Env) : Prop :=
  ∀ x, env₁'.get? x = env₂'.get? x ∨ env₁'.get? x = env₁.get? x ∧ env₂'.get? x = env₂.get? x

/-- All that `s` can come to read is in `V`, where the two environments agree. -/
structure Stmt.Confined (V : Set Ident) (env₁ env₂ : Env) (s : Stmt) : Prop where
  reads : ∀ x ∈ s.vars, x ∈ V
  agree : ∀ x ∈ V, env₁.get? x = env₂.get? x
  closed : env₁.Closed V

namespace Env.ChangedAlike

variable {env₁ env₂ env₁' env₂' env₁'' env₂'' : Env}

theorem refl (env₁ env₂ : Env) : ChangedAlike env₁ env₂ env₁ env₂ := fun _ => .inr ⟨rfl, rfl⟩

theorem trans (h : ChangedAlike env₁ env₂ env₁' env₂') (h' : ChangedAlike env₁' env₂' env₁'' env₂'') :
    ChangedAlike env₁ env₂ env₁'' env₂'' := by
  intro x
  rcases h' x with heq | ⟨h₁, h₂⟩
  · exact .inl heq
  · rcases h x with heq | ⟨h₁', h₂'⟩
    · exact .inl (by rw [h₁, h₂, heq])
    · exact .inr ⟨h₁.trans h₁', h₂.trans h₂'⟩

theorem insert (env₁ env₂ : Env) (x : Ident) (e : Expr) :
    ChangedAlike env₁ env₂ (env₁.insert x e) (env₂.insert x e) := by
  intro y
  rw [Dict.get?_insert, Dict.get?_insert]
  by_cases hy : y = x
  · exact .inl (by rw [if_pos hy, if_pos hy])
  · exact .inr (by rw [if_neg hy, if_neg hy]; exact ⟨rfl, rfl⟩)

end Env.ChangedAlike

namespace Stmt.Confined

variable {V : Set Ident} {env₁ env₂ : Env} {s : Stmt}

theorem symm (h : s.Confined V env₁ env₂) : s.Confined V env₂ env₁ := by
  refine ⟨h.reads, fun x hx => (h.agree x hx).symm, ?_⟩
  rintro x hx y ⟨e, he, hy⟩
  exact h.closed x hx y ⟨e, (h.agree x hx).trans he, hy⟩

/-- One step gives the same result in both environments and changes them alike. -/
theorem step (h : s.Confined V env₁ env₂) : (s.step env₁).result = (s.step env₂).result ∧
    Env.ChangedAlike env₁ env₂ (s.step env₁).env (s.step env₂).env ∧
    ∀ s', (s.step env₁).result = .ok s' → s'.Confined V (s.step env₁).env (s.step env₂).env := by
  have hresult := Stmt.step_agree fun x hx => h.agree x (h.reads x hx)
  have hclosed : (s.step env₁).env.Closed V := fun x hx y hy => h.closed x hx y ((s.step_framed env₁).reads hy)
  have hvars : ∀ s', (s.step env₁).result = .ok s' → ∀ x ∈ s'.vars, x ∈ V :=
    fun s' hs => (Stmt.inherits_of_step hs).vars V h.closed h.reads
  rw [Stmt.step_env] at hclosed ⊢
  rw [Stmt.step_env]
  rcases s.head.commit_cases with hc | ⟨x, v, -, hc⟩
  · rw [hc, hc]
    exact ⟨hresult, .refl _ _, fun s' hs => ⟨hvars s' hs, h.agree, h.closed⟩⟩
  · rw [hc] at hclosed
    rw [hc, hc]
    refine ⟨hresult, .insert _ _ x _, fun s' hs => ⟨hvars s' hs, fun y hy => ?_, hclosed⟩⟩
    rw [Dict.get?_insert, Dict.get?_insert, h.agree y hy]

end Stmt.Confined

namespace Machine

variable {V : Set Ident} {m m' : Machine Stmt} {env : Env} {n : Nat}

def moved (m : Machine Stmt) (env : Env) : Machine Stmt := { m with env := env }

inductive StepsAlike (V : Set Ident) (m : Machine Stmt) (env : Env) : Prop where
  | ok {m' : Machine Stmt} {env' : Env} : m.step = (m', .ok ()) → (m.moved env).step = (m'.moved env', .ok ()) →
    m'.node.Confined V m'.env env' → Env.ChangedAlike m.env env m'.env env' → StepsAlike V m env
  | error {stop : Stop} : m.step = (m, .error stop) → (m.moved env).step = (m.moved env, .error stop) →
    StepsAlike V m env

theorem stepsAlike (h : m.node.Confined V m.env env) : StepsAlike V m env := by
  obtain ⟨hresult, hchanged, hnext⟩ := h.step
  have hs := step_cases m
  generalize hp : m.step = p at hs
  cases hs with
  | spent hL hle => exact .error hp (step_of_spent hL hle)
  | @fault f hlt hs =>
    have hs' : m.node.step env = ⟨.error f, env⟩ := by
      rcases hr : m.node.step env with ⟨r, env'⟩
      obtain rfl : r = .error f := by
        rw [← show (m.node.step env).result = r from congrArg Outcome.result hr, ← hresult]
        exact congrArg Outcome.result hs
      rw [Stmt.step_fault_env hr]
    exact .error hp (step_of_fault hlt hs')
  | @ok s' env' hlt hs =>
    have hs' : m.node.step m.env = ⟨.ok s', env'⟩ := hs
    rw [hs'] at hresult hchanged hnext
    have hmoved : (m.moved env).step = (⟨s', (m.node.step env).env, m.config, m.steps + 1⟩, .ok ()) := by
      have hx : (m.moved env).exhausted? = none := exhausted?_eq_none.2 hlt
      have hr : Node.step (m.moved env).env (m.moved env).node = ⟨.ok s', (m.node.step env).env⟩ :=
        congrArg (Outcome.mk · (m.node.step env).env) hresult.symm
      rw [step, hx, hr]
      rfl
    exact .ok hp hmoved (hnext s' rfl) hchanged

/-- Any number of steps in a row. -/
theorem after_alike (h : m.node.Confined V m.env env) (hm : m.after n = some m') : ∃ env',
    (m.moved env).after n = some (m'.moved env') ∧ m'.node.Confined V m'.env env' ∧
      Env.ChangedAlike m.env env m'.env env' := by
  induction n generalizing m env with
  | zero =>
    cases hm
    exact ⟨env, rfl, h, .refl _ _⟩
  | succ n ih =>
    rw [after] at hm
    cases stepsAlike h with
    | @ok m₁ env₁ hs hs' h₁ hchanged =>
      rw [hs] at hm
      obtain ⟨env', hm', h', hchanged'⟩ := ih h₁ hm
      refine ⟨env', ?_, h', hchanged.trans hchanged'⟩
      rw [after, hs']
      exact hm'
    | error hs _ =>
      rw [hs] at hm
      cases hm

theorem nodes_alike (h : m.node.Confined V m.env env) (n : Nat) :
    (m.after n).map Machine.node = ((m.moved env).after n).map Machine.node := by
  rcases hm : m.after n with _ | m'
  · rcases hm' : (m.moved env).after n with _ | m'
    · rfl
    · -- the other machine would have to lag behind this one
      obtain ⟨env', hback, -⟩ := after_alike (m := m.moved env) h.symm hm'
      rw [show (m.moved env).moved m.env = m from rfl, hm] at hback
      cases hback
  · obtain ⟨env', hm', -⟩ := after_alike h hm
    rw [hm']
    rfl

def Ran.ending (r : Ran Stmt) : Stmt × UInt64 × Except Stop Unit := (r.machine.node, r.machine.steps, r.result)

theorem run_alike (h : m.node.Confined V m.env env) (fuel : Nat) (bytes bytes' : ByteArray) :
    (m.run fuel ⟨none, bytes⟩).map Ran.ending = ((m.moved env).run fuel ⟨none, bytes'⟩).map Ran.ending := by
  induction fuel generalizing m env bytes bytes' with
  | zero => rfl
  | succ fuel ih =>
    have hred : (m.moved env).reducible = m.reducible := rfl
    rw [run_unbounded, run_unbounded, hred]
    split
    · cases stepsAlike h with
      | ok hs hs' h₁ _ =>
        rw [hs, hs']
        exact ih h₁ ..
      | error hs hs' =>
        rw [hs, hs']
        rfl
    · rfl

end Machine

/-! ### Evaluation -/

/-- Two executions of one statement come to the same: both succeed or both fail with one fault, and they leave behind
what has changed alike, or neither ends. -/
inductive Stmt.SameCourse (env₁ env₂ : Env) (s : Stmt) : Prop where
  | ends {r : Except Fault Unit} {env₁' env₂' : Env} : (∃ fuel, s.exec fuel env₁ = some ⟨r, env₁'⟩) →
    (∃ fuel, s.exec fuel env₂ = some ⟨r, env₂'⟩) → Env.ChangedAlike env₁ env₂ env₁' env₂' → SameCourse env₁ env₂ s
  | never : (∀ fuel, s.exec fuel env₁ = none) → (∀ fuel, s.exec fuel env₂ = none) → SameCourse env₁ env₂ s

section
variable {V : Set Ident} {env₁ env₂ env₁' : Env} {s : Stmt} {r : Except Fault Unit} {n : Nat}

theorem Stmt.Confined.executes (h : s.Confined V env₁ env₂) (he : s.Executes env₁ ⟨r, env₁'⟩ n) :
    ∃ env₂', s.Executes env₂ ⟨r, env₂'⟩ n ∧ Env.ChangedAlike env₁ env₂ env₁' env₂' := by
  cases r with
  | ok _ =>
    obtain ⟨hm, -⟩ := Machine.ends_ok_iff.1 (Stmt.executes_ok_iff.1 he)
    obtain ⟨env₂', hm', -, hchanged⟩ := Machine.after_alike (m := .start s env₁ ⟨none⟩) h hm
    exact ⟨env₂', Stmt.executes_ok_iff.2 (Machine.ends_ok_iff.2 ⟨hm', rfl⟩), hchanged⟩
  | error f =>
    obtain ⟨m, hm, hred, rfl, hs⟩ := Machine.ends_error_iff.1 (Stmt.executes_error_iff.1 he)
    obtain ⟨env₂', hm', h', hchanged⟩ := Machine.after_alike (m := .start s env₁ ⟨none⟩) h hm
    refine ⟨env₂', Stmt.executes_error_iff.2 (Machine.ends_error_iff.2 ⟨m.moved env₂', hm', hred, rfl, ?_⟩), hchanged⟩
    cases Machine.stepsAlike h' with
    | ok hok _ _ _ =>
      rw [hs] at hok
      cases hok
    | error herr herr' =>
      rw [hs] at herr
      cases herr
      exact herr'

theorem Stmt.Confined.sameCourse (h : s.Confined V env₁ env₂) : s.SameCourse env₁ env₂ := by
  by_cases hends : ∃ o n, s.Executes env₁ o n
  · obtain ⟨⟨r, env₁'⟩, n, hn⟩ := hends
    obtain ⟨env₂', hn', hchanged⟩ := h.executes hn
    exact .ends hn.exec hn'.exec hchanged
  · refine .never ?_ ?_ <;> intro fuel <;> rw [Option.eq_none_iff_forall_ne_some] <;> intro o ho
    · exact hends ⟨o, Stmt.executes_of_exec ho⟩
    · obtain ⟨n, hn⟩ := Stmt.executes_of_exec ho
      obtain ⟨env₁', hn', -⟩ := h.symm.executes hn
      exact hends ⟨_, n, hn'⟩

end

/-- Environments that agree on all that a statement can read give it the same course, under either engine and under
every limit of steps. -/
theorem runs_depend_on_readable_names (s : Stmt) (env₁ env₂ : Env) (V : Set Ident) (hreads : ∀ x ∈ s.vars, x ∈ V)
    (hagree : ∀ x ∈ V, env₁.get? x = env₂.get? x)
    (hclosed : ∀ x ∈ V, ∀ e, env₁.get? x = some e → ∀ y ∈ e.vars, y ∈ V) :
    s.SameCourse env₁ env₂ ∧ ∀ config,
      (∀ n, ((Machine.start s env₁ config).after n).map Machine.node =
        ((Machine.start s env₂ config).after n).map Machine.node) ∧
      ∀ fuel, ((Machine.start s env₁ config).run fuel .unbounded).map Machine.Ran.ending =
        ((Machine.start s env₂ config).run fuel .unbounded).map Machine.Ran.ending := by
  have h : s.Confined V env₁ env₂ := by
    refine ⟨hreads, hagree, ?_⟩
    rintro x hx y ⟨e, he, hy⟩
    exact hclosed x hx e he y hy
  refine ⟨h.sameCourse, fun config => ⟨fun n => ?_, fun fuel => ?_⟩⟩
  · exact Machine.nodes_alike (m := .start s env₁ config) h n
  · exact Machine.run_alike (m := .start s env₁ config) h fuel .empty .empty

/-- The variable `x` brings in `y`, and `u` is assigned but not read. The environments differ in `u`, and in `z`, which
is left alone. -/
theorem unread_names_do_not_matter :
    let s : Stmt := .seq (.assign "u" (.binary .mul (.var "x") (.lit (.num 2))))
      (.assign "w" (.binary .add (.var "x") (.lit (.bool true))))
    let shared : Env := (Dict.empty.insert "x" (.binary .add (.var "y") (.lit (.num 1)))).insert "y" (.lit (.num 2))
    let env₁ : Env := shared.insert "u" (.var "u")
    let env₂ : Env := shared.insert "z" (.lit (.bool true))
    let V : Set Ident := fun x => x = "x" ∨ x = "y"
    (∀ x ∈ s.vars, x ∈ V) ∧ (∀ x ∈ V, env₁.get? x = env₂.get? x) ∧
      (∀ x ∈ V, ∀ e, env₁.get? x = some e → ∀ y ∈ e.vars, y ∈ V) ∧ s.SameCourse env₁ env₂ ∧
      ((Machine.start s env₁ ⟨some 7⟩).run 8 .unbounded).map Machine.Ran.ending =
        ((Machine.start s env₂ ⟨some 7⟩).run 8 .unbounded).map Machine.Ran.ending := by
  intro s shared env₁ env₂ V
  have hreads : ∀ x ∈ s.vars, x ∈ V := by
    intro x hx
    exact .inl (by simpa [s, Stmt.vars, Expr.vars] using hx)
  have hagree : ∀ x ∈ V, env₁.get? x = env₂.get? x := by
    rintro x (rfl | rfl) <;> rfl
  have hclosed : ∀ x ∈ V, ∀ e, env₁.get? x = some e → ∀ y ∈ e.vars, y ∈ V := by
    rintro x (rfl | rfl) e he y hy
    · obtain rfl : Expr.binary .add (.var "y") (.lit (.num 1)) = e := Option.some.inj he
      exact .inr (by simpa [Expr.vars] using hy)
    · obtain rfl : Expr.lit (.num 2) = e := Option.some.inj he
      simp [Expr.vars] at hy
  obtain ⟨hcourse, hmachines⟩ := runs_depend_on_readable_names s env₁ env₂ V hreads hagree hclosed
  exact ⟨hreads, hagree, hclosed, hcourse, (hmachines ⟨some 7⟩).2 8⟩

end WhileLang
