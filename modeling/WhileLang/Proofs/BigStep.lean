import WhileLang.Eval

/-! Evaluation as rules. The evaluators spend fuel, which says nothing about a
program; the rules leave it out and count reductions instead. Every proof about
whole runs is an induction over them. `eval_iff` and `exec_iff` say that the
rules and the evaluators give the same answers. -/

namespace WhileLang

/-- What an expression evaluates to, and how many reductions that takes before it is a
literal or the next one fails. -/
inductive Expr.Evaluates (env : Env) : Expr → Except Fault Value → Nat → Prop where
  | lit (v : Value) : Evaluates env (.lit v) (.ok v) 0
  | unbound {x : Ident} {f : Fault} : env.lookup x = .error f → Evaluates env (.var x) (.error f) 0
  | var {x : Ident} {e : Expr} {w : Except Fault Value} {n : Nat} :
    env.lookup x = .ok e → Evaluates env e w n → Evaluates env (.var x) w (n + 1)
  | leftFault {op : Op} {l r : Expr} {f : Fault} {n : Nat} :
    Evaluates env l (.error f) n → Evaluates env (.binary op l r) (.error f) n
  | rightFault {op : Op} {l r : Expr} {a : Value} {f : Fault} {m n : Nat} :
    Evaluates env l (.ok a) m → Evaluates env r (.error f) n →
    Evaluates env (.binary op l r) (.error f) (m + n)
  | applyFault {op : Op} {l r : Expr} {a b : Value} {f : Fault} {m n : Nat} :
    Evaluates env l (.ok a) m → Evaluates env r (.ok b) n →
    op.apply (.lit a) (.lit b) = .error f → Evaluates env (.binary op l r) (.error f) (m + n)
  | apply {op : Op} {l r : Expr} {a b v : Value} {m n : Nat} :
    Evaluates env l (.ok a) m → Evaluates env r (.ok b) n →
    op.apply (.lit a) (.lit b) = .ok v → Evaluates env (.binary op l r) (.ok v) (m + n + 1)

inductive Expr.Tests (env : Env) (c : Expr) : Except Fault Bool → Nat → Prop where
  | fault {f : Fault} {n : Nat} : c.Evaluates env (.error f) n → Tests env c (.error f) n
  | truth {v : Value} {n : Nat} : c.Evaluates env (.ok v) n → Tests env c (Expr.truth (.lit v)) n

/-- What a statement leaves behind, with the reductions it takes. A loop does what its
unrolling does. -/
inductive Stmt.Executes : Env → Stmt → Outcome Unit → Nat → Prop where
  | skip (env : Env) : Executes env .skip ⟨.ok (), env⟩ 0
  | assignFault {env : Env} {x : Ident} {e : Expr} {f : Fault} {n : Nat} :
    e.Evaluates env (.error f) n → Executes env (.assign x e) ⟨.error f, env⟩ n
  | assign {env : Env} {x : Ident} {e : Expr} {v : Value} {n : Nat} :
    e.Evaluates env (.ok v) n → Executes env (.assign x e) ⟨.ok (), env.insert x (.lit v)⟩ (n + 1)
  | iteFault {env : Env} {c : Expr} {t e : Stmt} {f : Fault} {n : Nat} :
    c.Tests env (.error f) n → Executes env (.ite c t e) ⟨.error f, env⟩ n
  | ite {env : Env} {c : Expr} {t e : Stmt} {b : Bool} {o : Outcome Unit} {m n : Nat} :
    c.Tests env (.ok b) m → Executes env (if b then t else e) o n →
    Executes env (.ite c t e) o (m + 1 + n)
  | seqFault {env env' : Env} {a b : Stmt} {f : Fault} {n : Nat} :
    Executes env a ⟨.error f, env'⟩ n → Executes env (.seq a b) ⟨.error f, env'⟩ n
  | seq {env env' : Env} {a b : Stmt} {o : Outcome Unit} {m n : Nat} :
    Executes env a ⟨.ok (), env'⟩ m → Executes env' b o n → Executes env (.seq a b) o (m + 1 + n)
  | loop {env : Env} {c : Expr} {body : Stmt} {o : Outcome Unit} {n : Nat} :
    Executes env (.ite c (.seq body (.loop c body)) .skip) o n →
    Executes env (.loop c body) o (n + 1)

section
variable {env : Env} {e c : Expr} {s : Stmt}

theorem Expr.Evaluates.recount {w : Except Fault Value} {m n : Nat} (h : e.Evaluates env w m) (hn : m = n) :
    e.Evaluates env w n := hn ▸ h

theorem Stmt.Executes.recount {o : Outcome Unit} {m n : Nat} (h : s.Executes env o m) (hn : m = n) :
    s.Executes env o n := hn ▸ h

theorem Expr.eval_mono : ∀ {fuel fuel' : Nat} {e : Expr} {w : Except Fault Value}, fuel ≤ fuel' →
    e.eval fuel env = some w → e.eval fuel' env = some w := by
  intro fuel
  induction fuel with
  | zero => intro fuel' e w _ h; simp at h
  | succ fuel ih =>
    intro fuel' e w hle h
    obtain ⟨k, rfl⟩ : ∃ k, fuel' = k + 1 := ⟨fuel' - 1, by omega⟩
    have hk : fuel ≤ k := by omega
    cases e with
    | lit v => simpa using h
    | var x =>
      rw [Expr.eval_var] at h ⊢
      cases hx : env.lookup x with
      | error f => simpa [hx] using h
      | ok e => simp only [hx] at h ⊢; exact ih hk h
    | binary op l r =>
      rw [Expr.eval_binary] at h ⊢
      rcases hl : l.eval fuel env with _ | f | a
      · simp [hl] at h
      · simpa [ih hk hl, hl] using h
      · rcases hr : r.eval fuel env with _ | f | b
        · simp [hl, hr] at h
        · simpa [ih hk hl, ih hk hr, hl, hr] using h
        · simpa [ih hk hl, ih hk hr, hl, hr] using h

theorem Expr.test_mono {fuel fuel' : Nat} {w : Except Fault Bool} (hle : fuel ≤ fuel')
    (h : c.test fuel env = some w) : c.test fuel' env = some w := by
  rw [Expr.test_eq] at h ⊢
  rcases hc : c.eval fuel env with _ | f | v
  · simp [hc] at h
  · simpa [Expr.eval_mono hle hc, hc] using h
  · simpa [Expr.eval_mono hle hc, hc] using h

/-- What one unit of fuel is spent on: the ways in which the evaluator answers, each with the answers it got for
the parts. -/
inductive Stmt.Round (fuel : Nat) (env : Env) : Stmt → Outcome Unit → Prop where
  | skip : Round fuel env .skip ⟨.ok (), env⟩
  | assignFault {x : Ident} {e : Expr} {f : Fault} :
    e.eval fuel env = some (.error f) → Round fuel env (.assign x e) ⟨.error f, env⟩
  | assign {x : Ident} {e : Expr} {v : Value} :
    e.eval fuel env = some (.ok v) → Round fuel env (.assign x e) ⟨.ok (), env.insert x (.lit v)⟩
  | iteFault {c : Expr} {t e : Stmt} {f : Fault} :
    c.test fuel env = some (.error f) → Round fuel env (.ite c t e) ⟨.error f, env⟩
  | ite {c : Expr} {t e : Stmt} {b : Bool} {o : Outcome Unit} :
    c.test fuel env = some (.ok b) → (if b then t else e).exec fuel env = some o → Round fuel env (.ite c t e) o
  | seqFault {env' : Env} {a b : Stmt} {f : Fault} :
    a.exec fuel env = some ⟨.error f, env'⟩ → Round fuel env (.seq a b) ⟨.error f, env'⟩
  | seq {env' : Env} {a b : Stmt} {o : Outcome Unit} :
    a.exec fuel env = some ⟨.ok (), env'⟩ → b.exec fuel env' = some o → Round fuel env (.seq a b) o
  | loopFault {c : Expr} {body : Stmt} {f : Fault} :
    c.test fuel env = some (.error f) → Round fuel env (.loop c body) ⟨.error f, env⟩
  | loopDone {c : Expr} {body : Stmt} :
    c.test fuel env = some (.ok false) → Round fuel env (.loop c body) ⟨.ok (), env⟩
  | bodyFault {env' : Env} {c : Expr} {body : Stmt} {f : Fault} :
    c.test fuel env = some (.ok true) → body.exec fuel env = some ⟨.error f, env'⟩ →
    Round fuel env (.loop c body) ⟨.error f, env'⟩
  | again {env' : Env} {c : Expr} {body : Stmt} {o : Outcome Unit} :
    c.test fuel env = some (.ok true) → body.exec fuel env = some ⟨.ok (), env'⟩ →
    (Stmt.loop c body).exec fuel env' = some o → Round fuel env (.loop c body) o

theorem Stmt.round_of_exec {fuel : Nat} {o : Outcome Unit} (h : s.exec (fuel + 1) env = some o) :
    s.Round fuel env o := by
  cases s with
  | skip => cases h; exact .skip
  | assign x e =>
    rw [Stmt.exec_assign] at h
    rcases he : e.eval fuel env with _ | f | v
    · simp [he] at h
    · obtain rfl : ⟨.error f, env⟩ = o := by simpa [he] using h
      exact .assignFault he
    · obtain rfl : ⟨.ok (), env.insert x (.lit v)⟩ = o := by simpa [he] using h
      exact .assign he
  | ite c t e =>
    rw [Stmt.exec_ite] at h
    rcases hc : c.test fuel env with _ | f | _ | _
    · simp [hc] at h
    · obtain rfl : ⟨.error f, env⟩ = o := by simpa [hc] using h
      exact .iteFault hc
    · simp only [hc] at h
      exact .ite hc h
    · simp only [hc] at h
      exact .ite hc h
  | seq a b =>
    rw [Stmt.exec_seq] at h
    rcases ha : a.exec fuel env with _ | ⟨f | _, env'⟩
    · simp [ha] at h
    · obtain rfl : ⟨.error f, env'⟩ = o := by simpa [ha] using h
      exact .seqFault ha
    · simp only [ha] at h
      exact .seq ha h
  | loop c body =>
    rw [Stmt.exec_loop] at h
    rcases hc : c.test fuel env with _ | f | _ | _
    · simp [hc] at h
    · obtain rfl : ⟨.error f, env⟩ = o := by simpa [hc] using h
      exact .loopFault hc
    · obtain rfl : ⟨.ok (), env⟩ = o := by simpa [hc] using h
      exact .loopDone hc
    · rcases hb : body.exec fuel env with _ | ⟨f | _, env'⟩
      · simp [hc, hb] at h
      · obtain rfl : ⟨.error f, env'⟩ = o := by simpa [hc, hb] using h
        exact .bodyFault hc hb
      · simp only [hc, hb] at h
        exact .again hc hb h

theorem Stmt.Round.exec {fuel : Nat} {o : Outcome Unit} (h : s.Round fuel env o) : s.exec (fuel + 1) env = some o := by
  cases h with
  | skip => rfl
  | assignFault he => simp [Stmt.exec_assign, he]
  | assign he => simp [Stmt.exec_assign, he]
  | iteFault hc => simp [Stmt.exec_ite, hc]
  | @ite _ _ _ b _ hc h => cases b <;> simpa [Stmt.exec_ite, hc] using h
  | seqFault ha => simp [Stmt.exec_seq, ha]
  | seq ha hb => simpa [Stmt.exec_seq, ha] using hb
  | loopFault hc => simp [Stmt.exec_loop, hc]
  | loopDone hc => simp [Stmt.exec_loop, hc]
  | bodyFault hc hb => simp [Stmt.exec_loop, hc, hb]
  | again hc hb h => simpa [Stmt.exec_loop, hc, hb] using h

theorem Stmt.exec_mono : ∀ {fuel fuel' : Nat} {env : Env} {s : Stmt} {o : Outcome Unit}, fuel ≤ fuel' →
    s.exec fuel env = some o → s.exec fuel' env = some o := by
  intro fuel
  induction fuel with
  | zero => intro fuel' env s o _ h; simp at h
  | succ fuel ih =>
    intro fuel' env s o hle h
    obtain ⟨k, rfl⟩ : ∃ k, fuel' = k + 1 := ⟨fuel' - 1, by omega⟩
    have hk : fuel ≤ k := by omega
    apply Stmt.Round.exec
    cases Stmt.round_of_exec h with
    | skip => exact .skip
    | assignFault he => exact .assignFault (Expr.eval_mono hk he)
    | assign he => exact .assign (Expr.eval_mono hk he)
    | iteFault hc => exact .iteFault (Expr.test_mono hk hc)
    | ite hc h => exact .ite (Expr.test_mono hk hc) (ih hk h)
    | seqFault ha => exact .seqFault (ih hk ha)
    | seq ha hb => exact .seq (ih hk ha) (ih hk hb)
    | loopFault hc => exact .loopFault (Expr.test_mono hk hc)
    | loopDone hc => exact .loopDone (Expr.test_mono hk hc)
    | bodyFault hc hb => exact .bodyFault (Expr.test_mono hk hc) (ih hk hb)
    | again hc hb h => exact .again (Expr.test_mono hk hc) (ih hk hb) (ih hk h)

theorem Expr.evaluates_of_eval : ∀ {fuel : Nat} {e : Expr} {w : Except Fault Value},
    e.eval fuel env = some w → ∃ n, e.Evaluates env w n := by
  intro fuel
  induction fuel with
  | zero => intro e w h; simp at h
  | succ fuel ih =>
    intro e w h
    cases e with
    | lit v =>
      obtain rfl : Except.ok v = w := by simpa using h
      exact ⟨0, .lit v⟩
    | var x =>
      rw [Expr.eval_var] at h
      cases hx : env.lookup x with
      | error f =>
        obtain rfl : Except.error f = w := by simpa [hx] using h
        exact ⟨0, .unbound hx⟩
      | ok e =>
        simp only [hx] at h
        obtain ⟨n, hn⟩ := ih h
        exact ⟨n + 1, .var hx hn⟩
    | binary op l r =>
      rw [Expr.eval_binary] at h
      rcases hl : l.eval fuel env with _ | f | a
      · simp [hl] at h
      · obtain rfl : Except.error f = w := by simpa [hl] using h
        obtain ⟨n, hn⟩ := ih hl
        exact ⟨n, .leftFault hn⟩
      · obtain ⟨m, hm⟩ := ih hl
        rcases hr : r.eval fuel env with _ | f | b
        · simp [hl, hr] at h
        · obtain rfl : Except.error f = w := by simpa [hl, hr] using h
          obtain ⟨n, hn⟩ := ih hr
          exact ⟨m + n, .rightFault hm hn⟩
        · obtain ⟨n, hn⟩ := ih hr
          obtain rfl : op.apply (.lit a) (.lit b) = w := by simpa [hl, hr] using h
          cases hv : op.apply (.lit a) (.lit b) with
          | error f => exact ⟨m + n, .applyFault hm hn hv⟩
          | ok v => exact ⟨m + n + 1, .apply hm hn hv⟩

/-- Two evaluations that end do so with one fuel. -/
theorem Expr.eval_common {l r : Expr} {v w : Except Fault Value} (hl : ∃ fuel, l.eval fuel env = some v)
    (hr : ∃ fuel, r.eval fuel env = some w) : ∃ fuel, l.eval fuel env = some v ∧ r.eval fuel env = some w := by
  obtain ⟨i, hi⟩ := hl
  obtain ⟨j, hj⟩ := hr
  exact ⟨max i j, Expr.eval_mono (Nat.le_max_left i j) hi, Expr.eval_mono (Nat.le_max_right i j) hj⟩

theorem Expr.Evaluates.eval {w : Except Fault Value} {n : Nat} (h : e.Evaluates env w n) :
    ∃ fuel, e.eval fuel env = some w := by
  induction h with
  | lit v => exact ⟨1, rfl⟩
  | unbound hx => exact ⟨1, by simp [Expr.eval_var, hx]⟩
  | var hx _ ih =>
    obtain ⟨k, hk⟩ := ih
    exact ⟨k + 1, by simpa [Expr.eval_var, hx] using hk⟩
  | leftFault _ ih =>
    obtain ⟨k, hk⟩ := ih
    exact ⟨k + 1, by simp [Expr.eval_binary, hk]⟩
  | rightFault _ _ ihl ihr =>
    obtain ⟨k, hl, hr⟩ := Expr.eval_common ihl ihr
    exact ⟨k + 1, by simp [Expr.eval_binary, hl, hr]⟩
  | applyFault _ _ hv ihl ihr =>
    obtain ⟨k, hl, hr⟩ := Expr.eval_common ihl ihr
    exact ⟨k + 1, by simp [Expr.eval_binary, hl, hr, hv]⟩
  | apply _ _ hv ihl ihr =>
    obtain ⟨k, hl, hr⟩ := Expr.eval_common ihl ihr
    exact ⟨k + 1, by simp [Expr.eval_binary, hl, hr, hv]⟩

/-- The rules give the answers of the evaluator, and no others. -/
theorem Expr.eval_iff {w : Except Fault Value} :
    (∃ fuel, e.eval fuel env = some w) ↔ ∃ n, e.Evaluates env w n :=
  ⟨fun ⟨_, h⟩ => Expr.evaluates_of_eval h, fun ⟨_, h⟩ => h.eval⟩

theorem Expr.tests_of_test {fuel : Nat} {w : Except Fault Bool} (h : c.test fuel env = some w) :
    ∃ n, c.Tests env w n := by
  rw [Expr.test_eq] at h
  rcases hc : c.eval fuel env with _ | f | v
  · simp [hc] at h
  · obtain rfl : Except.error f = w := by simpa [hc] using h
    obtain ⟨n, hn⟩ := Expr.evaluates_of_eval hc
    exact ⟨n, .fault hn⟩
  · obtain rfl : Expr.truth (.lit v) = w := by simpa [hc] using h
    obtain ⟨n, hn⟩ := Expr.evaluates_of_eval hc
    exact ⟨n, .truth hn⟩

theorem Expr.Tests.test {w : Except Fault Bool} {n : Nat} (h : c.Tests env w n) :
    ∃ fuel, c.test fuel env = some w := by
  cases h with
  | fault hc =>
    obtain ⟨k, hk⟩ := hc.eval
    exact ⟨k, by simp [Expr.test_eq, hk]⟩
  | truth hc =>
    obtain ⟨k, hk⟩ := hc.eval
    exact ⟨k, by simp [Expr.test_eq, hk]⟩

theorem Stmt.executes_of_exec : ∀ {fuel : Nat} {env : Env} {s : Stmt} {o : Outcome Unit},
    s.exec fuel env = some o → ∃ n, s.Executes env o n := by
  intro fuel
  induction fuel with
  | zero => intro env s o h; simp at h
  | succ fuel ih =>
    intro env s o h
    cases Stmt.round_of_exec h with
    | skip => exact ⟨0, .skip env⟩
    | assignFault he =>
      obtain ⟨n, hn⟩ := Expr.evaluates_of_eval he
      exact ⟨n, .assignFault hn⟩
    | assign he =>
      obtain ⟨n, hn⟩ := Expr.evaluates_of_eval he
      exact ⟨n + 1, .assign hn⟩
    | iteFault hc =>
      obtain ⟨n, hn⟩ := Expr.tests_of_test hc
      exact ⟨n, .iteFault hn⟩
    | ite hc h =>
      obtain ⟨m, hm⟩ := Expr.tests_of_test hc
      obtain ⟨n, hn⟩ := ih h
      exact ⟨m + 1 + n, .ite hm hn⟩
    | seqFault ha =>
      obtain ⟨n, hn⟩ := ih ha
      exact ⟨n, .seqFault hn⟩
    | seq ha hb =>
      obtain ⟨m, hm⟩ := ih ha
      obtain ⟨n, hn⟩ := ih hb
      exact ⟨m + 1 + n, .seq hm hn⟩
    | loopFault hc =>
      obtain ⟨n, hn⟩ := Expr.tests_of_test hc
      exact ⟨n + 1, .loop (.iteFault hn)⟩
    | loopDone hc =>
      obtain ⟨n, hn⟩ := Expr.tests_of_test hc
      exact ⟨n + 1 + 0 + 1, .loop (.ite hn (.skip env))⟩
    | bodyFault hc hb =>
      obtain ⟨m, hm⟩ := Expr.tests_of_test hc
      obtain ⟨n, hn⟩ := ih hb
      exact ⟨m + 1 + n + 1, .loop (.ite hm (.seqFault hn))⟩
    | again hc hb h =>
      obtain ⟨m, hm⟩ := Expr.tests_of_test hc
      obtain ⟨n, hn⟩ := ih hb
      obtain ⟨k, hk⟩ := ih h
      exact ⟨m + 1 + (n + 1 + k) + 1, .loop (.ite hm (.seq hn hk))⟩

/-- The native loop ends as its unrolling does. -/
theorem Stmt.exec_unroll {fuel : Nat} {env : Env} {c : Expr} {body : Stmt} {o : Outcome Unit}
    (h : (Stmt.ite c (.seq body (.loop c body)) .skip).exec (fuel + 1) env = some o) :
    (Stmt.loop c body).exec (fuel + 1) env = some o := by
  apply Stmt.Round.exec
  cases Stmt.round_of_exec h with
  | iteFault hc => exact .loopFault hc
  | @ite _ _ _ b _ hc h =>
    cases fuel with
    | zero => simp at h
    | succ fuel =>
      -- the unrolled body has one unit of fuel less
      have hle : fuel ≤ fuel + 1 := by omega
      cases b with
      | false =>
        cases Stmt.round_of_exec h with
        | skip => exact .loopDone hc
      | true =>
        cases Stmt.round_of_exec h with
        | seqFault hb => exact .bodyFault hc (Stmt.exec_mono hle hb)
        | seq hb h => exact .again hc (Stmt.exec_mono hle hb) (Stmt.exec_mono hle h)

theorem Stmt.Executes.exec {o : Outcome Unit} {n : Nat} (h : s.Executes env o n) :
    ∃ fuel, s.exec fuel env = some o := by
  induction h with
  | skip env => exact ⟨1, rfl⟩
  | assignFault he =>
    obtain ⟨k, hk⟩ := he.eval
    exact ⟨k + 1, Stmt.Round.exec (.assignFault hk)⟩
  | assign he =>
    obtain ⟨k, hk⟩ := he.eval
    exact ⟨k + 1, Stmt.Round.exec (.assign hk)⟩
  | iteFault hc =>
    obtain ⟨k, hk⟩ := hc.test
    exact ⟨k + 1, Stmt.Round.exec (.iteFault hk)⟩
  | ite hc _ ih =>
    obtain ⟨i, hi⟩ := hc.test
    obtain ⟨j, hj⟩ := ih
    have hc' := Expr.test_mono (Nat.le_max_left i j) hi
    have hb := Stmt.exec_mono (Nat.le_max_right i j) hj
    exact ⟨max i j + 1, Stmt.Round.exec (.ite hc' hb)⟩
  | seqFault _ ih =>
    obtain ⟨k, hk⟩ := ih
    exact ⟨k + 1, Stmt.Round.exec (.seqFault hk)⟩
  | seq _ _ iha ihb =>
    obtain ⟨i, hi⟩ := iha
    obtain ⟨j, hj⟩ := ihb
    have ha := Stmt.exec_mono (Nat.le_max_left i j) hi
    have hb := Stmt.exec_mono (Nat.le_max_right i j) hj
    exact ⟨max i j + 1, Stmt.Round.exec (.seq ha hb)⟩
  | loop _ ih =>
    obtain ⟨k, hk⟩ := ih
    exact ⟨k + 1, Stmt.exec_unroll (Stmt.exec_mono (by omega) hk)⟩

theorem Stmt.exec_iff {o : Outcome Unit} :
    (∃ fuel, s.exec fuel env = some o) ↔ ∃ n, s.Executes env o n :=
  ⟨fun ⟨_, h⟩ => Stmt.executes_of_exec h, fun ⟨_, h⟩ => h.exec⟩

theorem Stmt.run_iff {w : Except Fault Env} :
    (∃ fuel, s.run fuel env = some w) ↔ ∃ o, (∃ n, s.Executes env o n) ∧ (o.result.map fun _ => o.env) = w := by
  unfold Stmt.run
  constructor
  · rintro ⟨fuel, h⟩
    obtain ⟨o, ho, hw⟩ := Option.map_eq_some_iff.1 h
    exact ⟨o, Stmt.executes_of_exec ho, hw⟩
  · rintro ⟨o, ⟨n, hn⟩, rfl⟩
    obtain ⟨fuel, hf⟩ := hn.exec
    exact ⟨fuel, Option.map_eq_some_iff.2 ⟨o, hf, rfl⟩⟩

end

end WhileLang
