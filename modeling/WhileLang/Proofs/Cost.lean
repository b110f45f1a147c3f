import WhileLang.Proofs.FullSink
import WhileLang.Proofs.Variables

/-! How many steps a machine takes is a matter of the evaluation. The cost is read off
the evaluator alone: a variable costs one more than its binding and an operator one
more than its operands, and each statement adds what its own rewriting takes. For a
loop that is a sum over the iterations it enters, each in the environment it finds.
A machine then takes as many steps as that, so its cost is also the least limit under
which it finishes. The counter shows the cost unless that is more than a word holds. -/

namespace WhileLang

/-- The cost of an expression: nothing for a literal, and one for each variable that makes way for its binding and for
each operator. There is none where a variable has no binding. -/
def Expr.cost : Nat → Env → Expr → Option Nat
  | 0, _, _ => none
  | _ + 1, _, .lit _ => some 0
  | fuel + 1, env, .var x => do
    let e ← env.get? x
    return 1 + (← Expr.cost fuel env e)
  | fuel + 1, env, .binary _ l r => do
    return (← Expr.cost fuel env l) + (← Expr.cost fuel env r) + 1

/-- The environments in which a loop enters its body, one for each iteration, and that of the test which ends it. -/
def Stmt.iterations (c : Expr) (body : Stmt) : Nat → Env → Option (List Env × Env)
  | 0, _ => none
  | fuel + 1, env =>
    match c.test fuel env with
    | some (.ok false) => some ([], env)
    | some (.ok true) =>
      match body.exec fuel env with
      | some ⟨.ok (), env'⟩ => do
        let (entered, last) ← iterations c body fuel env'
        return (env :: entered, last)
      | _ => none
    | _ => none

def Stmt.roundCost (condition body : Env → Option Nat) (env : Env) : Option Nat := do
  return (← condition env) + (← body env) + 3

def total? (f : Env → Option Nat) : List Env → Option Nat
  | [] => some 0
  | env :: rest => do return (← f env) + (← total? f rest)

/-- The cost of a statement that succeeds. Each part is charged in the environment that it is run in. -/
def Stmt.cost (fuel : Nat) : Env → Stmt → Option Nat
  | _, .skip => some 0
  | env, .assign _ e => do return (← e.cost fuel env) + 1
  | env, .ite c t f =>
    match c.test fuel env with
    | some (.ok true) => do return (← c.cost fuel env) + 1 + (← Stmt.cost fuel env t)
    | some (.ok false) => do return (← c.cost fuel env) + 1 + (← Stmt.cost fuel env f)
    | _ => none
  | env, .seq a b =>
    match a.exec fuel env with
    | some ⟨.ok (), env'⟩ => do return (← Stmt.cost fuel env a) + 1 + (← Stmt.cost fuel env' b)
    | _ => none
  | env, .loop c body => do
    let (entered, last) ← Stmt.iterations c body fuel env
    let rounds ← total? (roundCost (c.cost fuel ·) fun env => Stmt.cost fuel env body) entered
    return rounds + ((← c.cost fuel last) + 2)

section
variable {env env' : Env} {fuel n : Nat}

theorem Expr.cost_of_eval {e : Expr} {v : Value} (h : e.eval fuel env = some (.ok v)) :
    ∃ n, e.cost fuel env = some n ∧ e.Evaluates env (.ok v) n := by
  induction fuel generalizing e v with
  | zero => simp at h
  | succ fuel ih =>
    cases e with
    | lit a =>
      obtain rfl : a = v := by simpa using h
      exact ⟨0, rfl, .lit a⟩
    | var x =>
      rw [Expr.eval_var] at h
      cases hx : env.lookup x with
      | error f => simp [hx] at h
      | ok b =>
        simp only [hx] at h
        obtain ⟨n, hcost, hn⟩ := ih h
        have hget : env.get? x = some b := Env.lookup_eq_ok hx
        exact ⟨1 + n, by simp [Expr.cost, hget, hcost], (Evaluates.var hx hn).recount (Nat.add_comm n 1)⟩
    | binary op l r =>
      rw [Expr.eval_binary] at h
      rcases hl : l.eval fuel env with _ | f | a
      · simp [hl] at h
      · simp [hl] at h
      · rcases hr : r.eval fuel env with _ | f | b
        · simp [hl, hr] at h
        · simp [hl, hr] at h
        · have hv : op.apply (.lit a) (.lit b) = .ok v := by simpa [hl, hr] using h
          obtain ⟨m, hcost, hm⟩ := ih hl
          obtain ⟨n, hcost', hn⟩ := ih hr
          exact ⟨m + n + 1, by simp [Expr.cost, hcost, hcost'], .apply hm hn hv⟩

/-- A condition that is tested with less fuel has its cost with more. -/
theorem Expr.cost_of_test {c : Expr} {b : Bool} {k : Nat} (hk : k ≤ fuel) (h : c.test k env = some (.ok b)) :
    ∃ n, c.cost fuel env = some n ∧ c.Tests env (.ok b) n := by
  rw [Expr.test_eq] at h
  rcases hc : c.eval k env with _ | f | v
  · simp [hc] at h
  · simp [hc] at h
  · obtain ⟨n, hcost, hn⟩ := Expr.cost_of_eval (Expr.eval_mono hk hc)
    have hv : Expr.truth (.lit v) = .ok b := by simpa [hc] using h
    exact ⟨n, hcost, hv ▸ .truth hn⟩

/-- A loop that ends with `k` units of fuel is charged, with the fuel for its parts, what all its steps come to. The
induction is over the iterations; that a body is charged rightly is what `hbody` says. -/
theorem Stmt.cost_of_loop {c : Expr} {body : Stmt} {k : Nat} (hk : k ≤ fuel)
    (hbody : ∀ {env env'}, body.exec fuel env = some ⟨.ok (), env'⟩ →
      ∃ n, body.cost fuel env = some n ∧ body.Executes env ⟨.ok (), env'⟩ n)
    (h : (Stmt.loop c body).exec k env = some ⟨.ok (), env'⟩) :
    ∃ entered last m n, Stmt.iterations c body k env = some (entered, last) ∧
      total? (Stmt.roundCost (c.cost fuel ·) (body.cost fuel ·)) entered = some m ∧ c.cost fuel last = some n ∧
      (Stmt.loop c body).Executes env ⟨.ok (), env'⟩ (m + (n + 2)) := by
  induction k generalizing env with
  | zero => simp at h
  | succ k ih =>
    have hk' : k ≤ fuel := Nat.le_of_succ_le hk
    cases Stmt.round_of_exec h with
    | loopDone hc =>
      obtain ⟨n, hcost, hn⟩ := Expr.cost_of_test hk' hc
      refine ⟨[], _, 0, n, by simp [Stmt.iterations, hc], rfl, hcost, ?_⟩
      exact (Executes.loop (.ite hn (.skip _))).recount (by omega)
    | @again env₁ _ _ _ hc hb hrest =>
      obtain ⟨i, hcost, hi⟩ := Expr.cost_of_test hk' hc
      obtain ⟨j, hcost', hj⟩ := hbody (Stmt.exec_mono hk' hb)
      obtain ⟨entered, last, m, n, hentered, htotal, hlast, hn⟩ := ih hk' hrest
      refine ⟨env :: entered, last, i + j + 3 + m, n, ?_, ?_, hlast, ?_⟩
      · simp [Stmt.iterations, hc, hb, hentered]
      · simp [total?, Stmt.roundCost, hcost, hcost', htotal]
      · exact (Executes.loop (.ite hi (.seq hj hn))).recount (by omega)

theorem Stmt.cost_of_exec {s : Stmt} (h : s.exec fuel env = some ⟨.ok (), env'⟩) :
    ∃ n, s.cost fuel env = some n ∧ s.Executes env ⟨.ok (), env'⟩ n := by
  obtain ⟨k, rfl⟩ : ∃ k, fuel = k + 1 := by
    cases fuel with
    | zero => simp at h
    | succ k => exact ⟨k, rfl⟩
  -- the parts are run with one unit less, and charged with as much
  have hk : k ≤ k + 1 := Nat.le_succ k
  induction s generalizing env env' with
  | skip =>
    cases Stmt.round_of_exec h with
    | skip => exact ⟨0, rfl, .skip _⟩
  | assign x e =>
    cases Stmt.round_of_exec h with
    | assign he =>
      obtain ⟨n, hcost, hn⟩ := Expr.cost_of_eval (Expr.eval_mono hk he)
      exact ⟨n + 1, by simp [Stmt.cost, hcost], .assign hn⟩
  | ite c t f iht ihf =>
    cases Stmt.round_of_exec h with
    | @ite _ _ _ b _ hc hb =>
      obtain ⟨m, hcost, hm⟩ := Expr.cost_of_test hk hc
      have hc' := Expr.test_mono hk hc
      have hb' := Stmt.exec_mono hk hb
      cases b with
      | true =>
        obtain ⟨n, hcost', hn⟩ := iht hb'
        exact ⟨m + 1 + n, by simp [Stmt.cost, hc', hcost, hcost'], .ite hm hn⟩
      | false =>
        obtain ⟨n, hcost', hn⟩ := ihf hb'
        exact ⟨m + 1 + n, by simp [Stmt.cost, hc', hcost, hcost'], .ite hm hn⟩
  | seq a b iha ihb =>
    cases Stmt.round_of_exec h with
    | seq ha hb =>
      have ha' := Stmt.exec_mono hk ha
      obtain ⟨m, hcost, hm⟩ := iha ha'
      obtain ⟨n, hcost', hn⟩ := ihb (Stmt.exec_mono hk hb)
      exact ⟨m + 1 + n, by simp [Stmt.cost, ha', hcost, hcost'], .seq hm hn⟩
  | loop c body ih =>
    obtain ⟨entered, last, m, n, hentered, htotal, hlast, hn⟩ := Stmt.cost_of_loop (Nat.le_refl _) ih h
    exact ⟨m + (n + 2), by simp [Stmt.cost, hentered, htotal, hlast], hn⟩

end

/-! ### Machines -/

namespace Machine

variable {ν : Type} [Node ν] {env env' : Env} {a b : ν} {n : Nat}

/-- A new machine finishes after exactly `n` steps. Without a limit it needs more fuel than that and no more, and it has
counted the steps as far as the counter goes; with one, it finishes if the limit allows as many. -/
structure Takes (env : Env) (a : ν) (n : Nat) : Prop where
  unlimited : ∃ r, (∀ fuel, (start a env ⟨none⟩).run fuel .unbounded = some r ↔ n < fuel) ∧ r.result = .ok () ∧
    r.machine.steps = .ofNat n ∧ (n < UInt64.size → r.machine.steps.toNat = n)
  limited : ∀ L : UInt64,
    (∃ fuel r, (start a env ⟨some L⟩).run fuel .unbounded = some r ∧ r.result = .ok ()) ↔ n ≤ L.toNat

theorem limited_ok_iff [AtomicNode ν] (h : Ends n env a ⟨.ok b, env'⟩) (L : UInt64) :
    (∃ fuel r, (start a env ⟨some L⟩).run fuel .unbounded = some r ∧ r.result = .ok ()) ↔ n ≤ L.toNat := by
  obtain ⟨r, hrun, -, hexact⟩ := exists_limitedRun env a L
  refine ⟨?_, fun hle => ⟨L.toNat + 1, r, hrun _ (Nat.lt_succ_self _), (hexact.finished n b env' h hle).1⟩⟩
  rintro ⟨fuel, r', hrun', hok⟩
  -- under a lower limit the machine would still be busy when its budget is spent
  refine Nat.le_of_not_lt fun hlt => ?_
  have hspent : r.result = .error (.limit L) := by
    refine (hexact.spent (fun n' b' env₁ h' => ?_) fun k f env₁ h' => ?_).1
    · rwa [← (h.unique h').1]
    · cases (h.unique h').2
  have hsame : r' = r := by
    have hmax := run_mono hrun' (Nat.le_max_left fuel (L.toNat + 1))
    rw [hrun _ (Nat.lt_of_succ_le (Nat.le_max_right ..))] at hmax
    exact (Option.some.inj hmax).symm
  rw [hsame, hspent] at hok
  cases hok

theorem takes_of_ends [AtomicNode ν] (h : Ends n env a ⟨.ok b, env'⟩) : Takes env a n := by
  obtain ⟨hafter, hred⟩ := ends_ok_iff.1 h
  have hrun := run_of_after hafter (.done hred) (Nat.lt_succ_self n) .empty
  have hspent : (start a env ⟨none⟩).run n .unbounded = none := run_spent hafter (Sink.room_none _)
  exact ⟨⟨_, fun fuel => run_iff hspent hrun, rfl, rfl, UInt64.toNat_ofNat_of_lt'⟩, limited_ok_iff h⟩

end Machine

/-- A machine takes as many steps as the evaluation costs. The cost is there as soon as the evaluator has fuel to
succeed, and does not change with more. -/
theorem steps_equal_cost :
    (∀ (s : Stmt) (env env' : Env) (fuel : Nat), s.exec fuel env = some ⟨.ok (), env'⟩ →
      ∃ n, (∀ more, fuel ≤ more → s.cost more env = some n) ∧ Machine.Takes env s n) ∧
    ∀ (e : Expr) (env : Env) (v : Value) (fuel : Nat), e.eval fuel env = some (.ok v) →
      ∃ n, (∀ more, fuel ≤ more → e.cost more env = some n) ∧ Machine.Takes env e n := by
  refine ⟨fun s env env' fuel h => ?_, fun e env v fuel h => ?_⟩
  · obtain ⟨n, -, hn⟩ := Stmt.cost_of_exec h
    refine ⟨n, fun more hmore => ?_, Machine.takes_of_ends (Stmt.executes_ok_iff.1 hn)⟩
    obtain ⟨n', hcost, hn'⟩ := Stmt.cost_of_exec (Stmt.exec_mono hmore h)
    rw [hcost, (hn'.ends.unique hn.ends).1]
  · obtain ⟨n, -, hn⟩ := Expr.cost_of_eval h
    refine ⟨n, fun more hmore => ?_, Machine.takes_of_ends hn.ends⟩
    obtain ⟨n', hcost, hn'⟩ := Expr.cost_of_eval (Expr.eval_mono hmore h)
    rw [hcost, (hn'.ends.unique hn.ends).1]

/-- Two iterations of eight steps and a last test of four; and a product of a variable with itself, whose binding is a
sum. -/
theorem loop_takes_twenty_steps :
    let next : Stmt := .assign "x" (.binary .add (.var "x") (.lit (.num 1)))
    let loop : Stmt := .loop (.binary .lt (.var "x") (.lit (.num 2))) next
    let zero : Env := Dict.empty.insert "x" (.lit (.num 0))
    let two : Env := Dict.empty.insert "x" (.lit (.num 2))
    let square : Expr := .binary .mul (.var "x") (.var "x")
    let sum : Env := Dict.empty.insert "x" (.binary .add (.lit (.num 1)) (.lit (.num 2)))
    (loop.exec 9 zero = some ⟨.ok (), two⟩ ∧ loop.cost 9 zero = some 20 ∧ Machine.Takes zero loop 20) ∧
    (square.eval 9 sum = some (.ok (.num 9)) ∧ square.cost 9 sum = some 5 ∧ Machine.Takes sum square 5) := by
  intro next loop zero two square sum
  have hexec : loop.exec 9 zero = some ⟨.ok (), two⟩ := rfl
  have hcost : loop.cost 9 zero = some 20 := rfl
  have heval : square.eval 9 sum = some (.ok (.num 9)) := rfl
  have hcost' : square.cost 9 sum = some 5 := rfl
  obtain ⟨n, hn, htakes⟩ := steps_equal_cost.1 loop zero two 9 hexec
  obtain ⟨n', hn', htakes'⟩ := steps_equal_cost.2 square sum (.num 9) 9 heval
  obtain rfl : 20 = n := Option.some.inj (hcost.symm.trans (hn 9 (Nat.le_refl 9)))
  obtain rfl : 5 = n' := Option.some.inj (hcost'.symm.trans (hn' 9 (Nat.le_refl 9)))
  exact ⟨⟨hexec, hcost, htakes⟩, heval, hcost', htakes'⟩

/-! ### Costs that the counter cannot hold

A binding is evaluated anew at each mention, so a chain of bindings that each mention
the one before twice has a cost that doubles with every link. -/

def link (n : Nat) : Ident := "x" ++ Text.ofNat n

def doubling : Nat → Env
  | 0 => Dict.empty.insert (link 0) (.lit (.num 0))
  | n + 1 => (doubling n).insert (link (n + 1)) (.binary .add (.var (link n)) (.var (link n)))

def doublingCost : Nat → Nat
  | 0 => 1
  | n + 1 => 2 * doublingCost n + 2

theorem link_injective : Function.Injective link := by
  intro m n h
  have hdigits : Nat.toDigits 10 m = Nat.toDigits 10 n := by
    simpa [link, Text.ofNat] using congrArg String.toList h
  rw [← Nat.ofDigitChars_ten_toDigits (n := m), hdigits, Nat.ofDigitChars_ten_toDigits]

/-- Longer chains have the links of shorter ones. -/
theorem lookup_doubling {k n : Nat} (h : k ≤ n) : (doubling n).lookup (link k) = (doubling k).lookup (link k) := by
  induction n with
  | zero =>
    obtain rfl : k = 0 := Nat.le_zero.1 h
    rfl
  | succ n ih =>
    rcases Nat.lt_or_eq_of_le h with hlt | rfl
    · have hne : link k ≠ link (n + 1) := fun heq => absurd (link_injective heq) (Nat.ne_of_lt hlt)
      rw [← ih (Nat.le_of_lt_succ hlt), doubling, Env.lookup, Env.lookup, Dict.get?_insert, if_neg hne]
    · rfl

theorem evaluates_link {k n : Nat} (h : k ≤ n) :
    (Expr.var (link k)).Evaluates (doubling n) (.ok (.num 0)) (doublingCost k) := by
  induction k with
  | zero =>
    have hx : (doubling n).lookup (link 0) = .ok (.lit (.num 0)) := lookup_doubling h
    exact .var hx (.lit _)
  | succ k ih =>
    have hk := ih (Nat.le_of_succ_le h)
    have hx : (doubling n).lookup (link (k + 1)) = .ok (.binary .add (.var (link k)) (.var (link k))) := by
      rw [lookup_doubling h, doubling, Env.lookup, Dict.get?_insert_self]
    exact (Expr.Evaluates.var hx (.apply hk hk rfl)).recount (by rw [doublingCost]; omega)

/-- After 63 links the counter has wrapped around once, and is short of the cost by as much. -/
theorem counter_falls_short_of_cost :
    let s : Stmt := .assign "y" (.var "x63")
    let env : Env := doubling 63
    ∃ fuel r, s.exec fuel env = some ⟨.ok (), env.insert "y" (.lit (.num 0))⟩ ∧
      s.cost fuel env = some 27670116110564327423 ∧
      (Machine.start s env ⟨none⟩).run 27670116110564327424 .unbounded = some r ∧ r.result = .ok () ∧
      r.machine.steps.toNat = 9223372036854775807 := by
  intro s env
  have hcount : doublingCost 63 + 1 = 27670116110564327423 := by decide
  have hs : s.Executes env ⟨.ok (), env.insert "y" (.lit (.num 0))⟩ 27670116110564327423 :=
    (Stmt.Executes.assign (evaluates_link (Nat.le_refl 63))).recount hcount
  obtain ⟨fuel, hexec⟩ := hs.exec
  obtain ⟨n, hcost, hn⟩ := Stmt.cost_of_exec hexec
  obtain rfl : n = 27670116110564327423 := (hn.ends.unique hs.ends).1
  obtain ⟨r, hrun, hok, hsteps, -⟩ := (Machine.takes_of_ends (Stmt.executes_ok_iff.1 hs)).unlimited
  refine ⟨fuel, r, hexec, hcost, (hrun _).2 (by decide), hok, ?_⟩
  rw [hsteps]
  decide

end WhileLang
