import WhileLang.Proofs.Agreement

/-! The reducts of a node: where so many reductions in a row lead. A machine is a
counter and a budget around them, so what it can reach is said here once, in
`after_iff`. A step that fails has no effect, neither on the environment nor on
the machine (`step_cases`). -/

namespace WhileLang

/-- A step that fails leaves the environment as it was. -/
class AtomicNode (ν : Type) [Node ν] : Prop extends LawfulNode ν where
  env_of_fault {env env' : Env} {a : ν} {f : Fault} : Node.step env a = ⟨.error f, env'⟩ → env' = env

instance : AtomicNode Expr where
  env_of_fault h := (congrArg Outcome.env h).symm

theorem Stmt.step_fault_env {env env' : Env} {s : Stmt} {f : Fault} (h : s.step env = ⟨.error f, env'⟩) :
    env' = env := by
  induction s with
  | skip => exact (congrArg Outcome.env h).symm
  | assign x e =>
    rw [Stmt.step_assign] at h
    split at h
    · exact (congrArg Outcome.env h).symm
    · simp at h
  | ite c t e _ _ =>
    rw [Stmt.step_ite] at h
    split at h <;> exact (congrArg Outcome.env h).symm
  | seq a b iha _ =>
    rw [Stmt.step_seq] at h
    split at h
    · -- the environment is what the first part leaves, which fails in its turn
      exact iha (Outcome.fault_of_map h)
    · simp at h
  | loop c body _ => simp at h

instance : AtomicNode Stmt where
  env_of_fault := Stmt.step_fault_env

section
variable {ν : Type} [Node ν] {env env' : Env} {a b : ν} {o : Outcome ν} {k n : Nat}

def Node.reduct? : Nat → Env → ν → Option (ν × Env)
  | 0, env, a => some (a, env)
  | n + 1, env, a =>
    match Node.step env a with
    | ⟨.ok b, env'⟩ => reduct? n env' b
    | ⟨.error _, _⟩ => none

namespace Node

theorem reduct?_of_ok (h : Node.step env a = ⟨.ok b, env'⟩) : reduct? (n + 1) env a = reduct? n env' b := by
  rw [reduct?, h]

theorem reduct?_of_fault {f : Fault} (h : Node.step env a = ⟨.error f, env'⟩) : reduct? (n + 1) env a = none := by
  rw [reduct?, h]

theorem reduct?_add (k n : Nat) (env : Env) (a : ν) :
    reduct? (k + n) env a = (reduct? k env a).bind fun p => reduct? n p.2 p.1 := by
  induction k generalizing env a with
  | zero => rw [Nat.zero_add]; rfl
  | succ k ih =>
    rw [Nat.succ_add]
    rcases hs : Node.step env a with ⟨f | b, env'⟩
    · rw [reduct?_of_fault hs, reduct?_of_fault hs, Option.bind_none]
    · rw [reduct?_of_ok hs, reduct?_of_ok hs, ih]

/-- Expressions leave the environment alone. -/
theorem env_of_reduct {e e' : Expr} (h : reduct? n env e = some (e', env')) : env' = env := by
  induction n generalizing e with
  | zero => cases h; rfl
  | succ n ih =>
    cases hs : e.step env with
    | error f => simp [reduct?, Node.step, hs] at h
    | ok e₁ => exact ih ((reduct?_of_ok (congrArg (Outcome.mk · env) hs)).symm.trans h)

end Node

end

namespace Machine

section
variable {ν : Type} {m : Machine ν}

theorem exhausted?_eq_some {L : UInt64} :
    m.exhausted? = some L ↔ m.config.stepLimit = some L ∧ L ≤ m.steps := by
  simp [exhausted?, Option.filter_eq_some_iff]

theorem exhausted?_eq_none : m.exhausted? = none ↔ ∀ L, m.config.stepLimit = some L → m.steps < L := by
  simp [exhausted?, Option.filter_eq_none_iff]

/-- The counter stays below a limit, so it does not wrap around under one. -/
theorem budget_succ {n : Nat} (hlt : ∀ L, m.config.stepLimit = some L → m.steps < L) :
    (∀ L, m.config.stepLimit = some L → n = 0 ∨ (m.steps + 1).toNat + n ≤ L.toNat) ↔
      ∀ L, m.config.stepLimit = some L → n + 1 = 0 ∨ m.steps.toNat + (n + 1) ≤ L.toNat := by
  refine forall_congr' fun L => forall_congr' fun hL => ?_
  have hL' : m.steps.toNat < L.toNat := UInt64.lt_iff_toNat_lt.1 (hlt L hL)
  have hone : (m.steps + 1).toNat = m.steps.toNat + 1 :=
    toNat_count (n := 1) (Nat.lt_of_le_of_lt hL' L.toNat_lt_size)
  omega

end

section
variable {ν : Type} [Node ν] {m m' : Machine ν} {env env' : Env} {a b : ν} {o : Outcome ν} {k n : Nat}

/-- All that a step can do. -/
inductive Stepped (m : Machine ν) : Machine ν × Except Stop Unit → Prop where
  | spent {L : UInt64} : m.config.stepLimit = some L → L ≤ m.steps → Stepped m (m, .error (.limit L))
  | fault {f : Fault} : (∀ L, m.config.stepLimit = some L → m.steps < L) →
    Node.step m.env m.node = ⟨.error f, m.env⟩ → Stepped m (m, .error (.fault f))
  | ok {b : ν} {env' : Env} : (∀ L, m.config.stepLimit = some L → m.steps < L) →
    Node.step m.env m.node = ⟨.ok b, env'⟩ → Stepped m (⟨b, env', m.config, m.steps + 1⟩, .ok ())

theorem step_cases [AtomicNode ν] (m : Machine ν) : m.Stepped m.step := by
  unfold step
  rcases hx : m.exhausted? with _ | L
  · have hlt := exhausted?_eq_none.1 hx
    rcases hs : Node.step m.env m.node with ⟨f | b, env'⟩
    · obtain rfl := AtomicNode.env_of_fault hs
      exact .fault hlt hs
    · exact .ok hlt hs
  · obtain ⟨hL, hle⟩ := exhausted?_eq_some.1 hx
    exact .spent hL hle

theorem step_of_spent {L : UInt64} (hL : m.config.stepLimit = some L) (hle : L ≤ m.steps) :
    m.step = (m, .error (.limit L)) := by
  rw [step, exhausted?_eq_some.2 ⟨hL, hle⟩]

theorem step_of_fault {f : Fault} (hlt : ∀ L, m.config.stepLimit = some L → m.steps < L)
    (hs : Node.step m.env m.node = ⟨.error f, m.env⟩) : m.step = (m, .error (.fault f)) := by
  rw [step, exhausted?_eq_none.2 hlt, hs]

/-- The machine's steps are the reductions, as far as the budget goes. -/
theorem after_iff [AtomicNode ν] : m.after n = some m' ↔
    Node.reduct? n m.env m.node = some (m'.node, m'.env) ∧ m'.config = m.config ∧ m'.steps = m.steps + .ofNat n ∧
      ∀ L, m.config.stepLimit = some L → n = 0 ∨ m.steps.toNat + n ≤ L.toNat := by
  induction n generalizing m with
  | zero =>
    obtain ⟨a, env, config, k⟩ := m
    obtain ⟨b, env', config', k'⟩ := m'
    rw [count_zero]
    simp only [after, Node.reduct?, Option.some.injEq, Machine.mk.injEq, Prod.mk.injEq]
    grind
  | succ n ih =>
    have hs := step_cases m
    rw [after]
    generalize m.step = p at hs
    cases hs with
    | spent hL hle =>
      refine ⟨by simp, ?_⟩
      rintro ⟨-, -, -, hbound⟩
      have hle' := UInt64.le_iff_toNat_le.1 hle
      have hL' := hbound _ hL
      omega
    | fault _ hf => simp [Node.reduct?_of_fault hf]
    | ok hlt hb =>
      rw [Node.reduct?_of_ok hb, ← count_succ, ← budget_succ hlt]
      exact ih

/-- Under a limit the counter has the number of steps. -/
theorem toNat_steps [AtomicNode ν] {L : UInt64} (hL : m.config.stepLimit = some L) (h : m.after n = some m') :
    m'.steps.toNat = m.steps.toNat + n := by
  obtain ⟨-, -, hsteps, hbudget⟩ := after_iff.1 h
  rw [hsteps]
  rcases hbudget L hL with rfl | hle
  · exact congrArg UInt64.toNat count_zero
  · exact toNat_count (Nat.lt_of_le_of_lt hle L.toNat_lt_size)

/-- A run ends where it is, or goes on from the next state. -/
theorem run_round [AtomicNode ν] (m : Machine ν) (sink : Sink) :
    (∃ r : Ran ν, r.machine = m ∧ ∀ fuel, m.run (fuel + 1) sink = some r) ∨
      ∃ m' sink', m.step = (m', .ok ()) ∧ ∀ fuel, m.run (fuel + 1) sink = m'.run fuel sink' := by
  simp only [run]
  rcases sink.write m.line with ⟨sink', _ | _⟩
  · exact .inl ⟨⟨m, sink', _⟩, rfl, fun _ => rfl⟩
  · cases m.reducible with
    | false => exact .inl ⟨⟨m, sink', _⟩, rfl, fun _ => rfl⟩
    | true =>
      have hs := step_cases m
      generalize m.step = p at hs
      cases hs with
      | spent _ _ | fault _ _ => exact .inl ⟨⟨m, sink', _⟩, rfl, fun _ => rfl⟩
      | ok _ _ => exact .inr ⟨_, sink', rfl, fun _ => rfl⟩

/-- A run that has not ended has spent its fuel on successful steps, and goes on from there. -/
theorem run_rest [AtomicNode ν] {sink : Sink} (h : m.run n sink = none) :
    ∃ m' sink', m.after n = some m' ∧ ∀ fuel, m.run (n + fuel) sink = m'.run fuel sink' := by
  induction n generalizing m sink with
  | zero => exact ⟨m, sink, rfl, fun fuel => by rw [Nat.zero_add]⟩
  | succ n ih =>
    rcases run_round m sink with ⟨r, -, hround⟩ | ⟨m₁, sink₁, hs, hround⟩
    · rw [hround] at h
      cases h
    · rw [hround] at h
      obtain ⟨m', sink', hm, hrest⟩ := ih h
      refine ⟨m', sink', ?_, fun fuel => ?_⟩
      · rw [after, hs]
        exact hm
      · rw [Nat.succ_add, hround, hrest]

/-- More fuel changes nothing. -/
theorem run_mono [AtomicNode ν] {fuel : Nat} {sink : Sink} {r : Ran ν} (h : m.run fuel sink = some r) (hf : fuel ≤ n) :
    m.run n sink = some r := by
  induction fuel generalizing m sink n with
  | zero => simp [run] at h
  | succ fuel ih =>
    obtain ⟨n, rfl⟩ : ∃ i, n = i + 1 := ⟨n - 1, by omega⟩
    rcases run_round m sink with ⟨r', -, hround⟩ | ⟨m', sink', -, hround⟩
    · rw [hround] at h ⊢
      exact h
    · rw [hround] at h ⊢
      exact ih h (Nat.le_of_succ_le_succ hf)

/-- A run of `n` steps needs more fuel than `n`, and no more. -/
theorem run_iff [AtomicNode ν] {fuel : Nat} {sink : Sink} {r : Ran ν} (hnone : m.run n sink = none)
    (hrun : m.run (n + 1) sink = some r) : m.run fuel sink = some r ↔ n < fuel := by
  refine ⟨fun h => Nat.lt_of_not_le fun hf => ?_, run_mono hrun⟩
  rw [run_mono h hf] at hnone
  cases hnone

/-- A run of reductions is its reducts, followed by its end. -/
theorem ends_iff_reduct [AtomicNode ν] :
    Ends n env a o ↔ ∃ b env', Node.reduct? n env a = some (b, env') ∧ Ends 0 env' b o := by
  rw [ends_iff_after (k := 0)]
  simp [after_iff]

end

end Machine

section
variable {ν : Type} [Node ν] {env env' : Env} {a b : ν} {o : Outcome ν} {k n : Nat}

/-- A reduct ends as the node does. -/
theorem ends_reduct_iff [AtomicNode ν] (h : Node.reduct? k env a = some (b, env')) :
    Ends (k + n) env a o ↔ Ends n env' b o := by
  rw [Machine.ends_iff_reduct, Machine.ends_iff_reduct, Node.reduct?_add, h, Option.bind_some]

/-- A run that fails does so in a step of its last reduct, which is still reducible. -/
theorem Ends.last_step [AtomicNode ν] {f : Fault} (h : Ends n env a ⟨.error f, env'⟩) :
    ∃ b, Node.reduct? n env a = some (b, env') ∧ Node.reducible b = true ∧ Node.step env' b = ⟨.error f, env'⟩ := by
  obtain ⟨b, env₁, hb, h0⟩ := Machine.ends_iff_reduct.1 h
  cases h0 with
  | fault hr hs => exact ⟨b, hb, hr, hs⟩

/-- There are no reducts past the end. -/
theorem Ends.le [LawfulNode ν] (h : Ends n env a o) (hk : Node.reduct? k env a = some (b, env')) : k ≤ n := by
  induction h generalizing k with
  | @done env a hr =>
    cases k with
    | zero => exact Nat.le_refl 0
    | succ k =>
      rcases hs : Node.step env a with ⟨f | c, env₁⟩
      · simp [Node.reduct?_of_fault hs] at hk
      · simp [LawfulNode.reducible_of_step hs] at hr
  | fault _ hs =>
    cases k with
    | zero => exact Nat.le_refl 0
    | succ k => simp [Node.reduct?_of_fault hs] at hk
  | step _ hs _ ih =>
    cases k with
    | zero => exact Nat.zero_le _
    | succ k =>
      rw [Node.reduct?_of_ok hs] at hk
      exact Nat.succ_le_succ (ih hk)

theorem Ends.unique [AtomicNode ν] {o' : Outcome ν} {n' : Nat} (h : Ends n env a o) (h' : Ends n' env a o') :
    n = n' ∧ o = o' := by
  obtain ⟨b, env₁, hb, h0⟩ := Machine.ends_iff_reduct.1 h
  obtain ⟨b', env₁', hb', h0'⟩ := Machine.ends_iff_reduct.1 h'
  obtain rfl : n = n' := Nat.le_antisymm (h'.le hb) (h.le hb')
  rw [hb] at hb'
  cases hb'
  refine ⟨rfl, ?_⟩
  cases h0 with
  | done hr =>
    cases h0' with
    | done _ => rfl
    | fault hr' _ => rw [hr] at hr'; cases hr'
  | fault hr hs =>
    cases h0' with
    | done hr' => rw [hr] at hr'; cases hr'
    | fault _ hs' => exact hs.symm.trans hs'

/-- Reductions go on unless they have come to an end. -/
theorem ends_or_reduct [AtomicNode ν] (n : Nat) (env : Env) (a : ν) :
    (∃ k o, k < n ∧ Ends k env a o) ∨ ∃ b env', Node.reduct? n env a = some (b, env') := by
  induction n generalizing env a with
  | zero => exact .inr ⟨a, env, rfl⟩
  | succ n ih =>
    cases hr : Node.reducible a with
    | false => exact .inl ⟨0, _, Nat.succ_pos n, .done hr⟩
    | true =>
      rcases hs : Node.step env a with ⟨f | b, env'⟩
      · obtain rfl := AtomicNode.env_of_fault hs
        exact .inl ⟨0, _, Nat.succ_pos n, .fault hr hs⟩
      · rw [Node.reduct?_of_ok hs]
        rcases ih env' b with ⟨k, o, hk, h⟩ | h
        · exact .inl ⟨k + 1, o, Nat.succ_lt_succ hk, .step hr hs h⟩
        · exact .inr h

end

end WhileLang
