import WhileLang.Proofs.Reducts

/-! What is done to a machine, one request after another. Each request is a step or a
run, and each can fail: the budget is spent, a reduction fails, the sink is full.
None of that shows in the machine. Whatever has happened to it, it stands where
as many reductions lead as it has made steps, and has counted these as far as the
counter goes. -/

namespace WhileLang

inductive Request where
  | step
  | run (sink : Sink)

namespace Machine

variable {ν : Type} [Node ν] {m m' m₀ : Machine ν} {k n fuel : Nat}

/-- The machine that a request leaves behind, whether it succeeds or fails, and the number of steps on the way. A run of
`n` steps needs more fuel than `n`; one that never ends leaves no machine. -/
inductive Serves (m : Machine ν) : Request → Nat → Machine ν → Prop where
  | step {m' : Machine ν} : m.step = (m', .ok ()) → Serves m .step 1 m'
  | refuse {m' : Machine ν} {stop : Stop} : m.step = (m', .error stop) → Serves m .step 0 m'
  | run {n : Nat} {sink : Sink} {r : Ran ν} : m.run n sink = none → m.run (n + 1) sink = some r →
    Serves m (.run sink) n r.machine

inductive History (m₀ : Machine ν) : List Request → Nat → Machine ν → Prop where
  | fresh : History m₀ [] 0 m₀
  | next {asked : List Request} {req : Request} {k n : Nat} {m m' : Machine ν} :
    History m₀ asked k m → Serves m req n m' → History m₀ (asked ++ [req]) (k + n) m'

theorem after_trans [AtomicNode ν] (h : m₀.after k = some m) (h' : m.after n = some m') :
    m₀.after (k + n) = some m' := by
  obtain ⟨hred, hconfig, hsteps, hbudget⟩ := after_iff.1 h
  obtain ⟨hred', hconfig', hsteps', hbudget'⟩ := after_iff.1 h'
  refine after_iff.2 ⟨?_, hconfig'.trans hconfig, ?_, ?_⟩
  · rw [Node.reduct?_add, hred, Option.bind_some, hred']
  · rw [hsteps', hsteps, UInt64.ofNat_add, UInt64.add_assoc]
  · intro L hL
    have hk := hbudget L hL
    have hn := hbudget' L (hconfig ▸ hL)
    rw [toNat_steps hL h] at hn
    omega

/-- A run moves the machine on by its successful steps, wherever it is broken off. -/
theorem run_after [AtomicNode ν] {sink : Sink} {r : Ran ν} (hnone : m.run n sink = none)
    (h : m.run (n + 1) sink = some r) : m.after n = some r.machine := by
  obtain ⟨m', sink', hm, hrest⟩ := run_rest hnone
  rw [hrest] at h
  rcases run_round m' sink' with ⟨r', rfl, hround⟩ | ⟨m₁, sink₁, -, hround⟩
  · rw [hround] at h
    cases h
    exact hm
  · rw [hround] at h
    cases h

/-- Every run that ends is a request that is served. -/
theorem serves_of_run [AtomicNode ν] {sink : Sink} {r : Ran ν} (h : m.run fuel sink = some r) :
    ∃ n, m.Serves (.run sink) n r.machine := by
  induction fuel with
  | zero => simp [run] at h
  | succ fuel ih =>
    cases hless : m.run fuel sink with
    | none => exact ⟨fuel, .run hless h⟩
    | some r' =>
      obtain rfl : r' = r := Option.some.inj ((run_mono hless (Nat.le_succ fuel)).symm.trans h)
      exact ih hless

/-- A run that ends with a fault stands at the node whose step has failed. -/
theorem run_fault [AtomicNode ν] {sink : Sink} {r : Ran ν} {f : Fault} (h : m.run fuel sink = some r)
    (hf : r.result = .error (.fault f)) :
    r.machine.reducible = true ∧ Node.step r.machine.env r.machine.node = ⟨.error f, r.machine.env⟩ := by
  induction fuel generalizing m sink with
  | zero => simp [run] at h
  | succ fuel ih =>
    rw [run] at h
    split at h
    · cases h
      cases hf
    · split at h
      · next hr =>
        have hs := step_cases m
        generalize m.step = p at hs h
        cases hs with
        | spent _ _ =>
          cases h
          cases hf
        | fault _ hs =>
          cases h
          cases hf
          exact ⟨hr, hs⟩
        | ok _ _ => exact ih h
      · cases h
        cases hf

theorem Serves.after [AtomicNode ν] {req : Request} (h : Serves m req n m') : m.after n = some m' := by
  cases h with
  | step hs =>
    rw [Machine.after, hs]
    rfl
  | refuse hs =>
    have hcases := step_cases m
    rw [hs] at hcases
    cases hcases <;> rfl
  | run hnone hr => exact run_after hnone hr

theorem History.after [AtomicNode ν] {asked : List Request} (h : History m₀ asked n m) : m₀.after n = some m := by
  induction h with
  | fresh => rfl
  | next _ hreq ih => exact after_trans ih hreq.after

/-- What holds of a machine after `n` steps, whatever has been asked of it. -/
structure Consistent (env : Env) (a : ν) (config : Config) (n : Nat) (m : Machine ν) : Prop where
  state : Node.reduct? n env a = some (m.node, m.env)
  /-- Under a limit the counter cannot overflow. -/
  within : ∀ L, config.stepLimit = some L → m.steps ≤ L ∧ m.steps.toNat = n
  steps : n < UInt64.size → m.steps.toNat = n
  counts : ∀ req k m', m.Serves req k m' → (config.stepLimit = none → n + k < UInt64.size) → m.steps ≤ m'.steps
  /-- No run that ends is left out. -/
  served : ∀ fuel sink r, m.run fuel sink = some r → ∃ k, m.Serves (.run sink) k r.machine

theorem History.consistent [AtomicNode ν] {env : Env} {a : ν} {config : Config} {asked : List Request}
    (h : History (start a env config) asked n m) : m.Consistent env a config n := by
  obtain ⟨hred, hconfig, hsteps, hbudget⟩ := after_iff.1 h.after
  have hstart : (start a env config).steps.toNat + n = n := Nat.zero_add n
  have hsteps' : n < UInt64.size → m.steps.toNat = n := by
    intro hn
    rw [hsteps, toNat_count (hstart.symm ▸ hn), hstart]
  refine ⟨hred, ?_, hsteps', ?_, fun fuel sink r hr => serves_of_run hr⟩
  · intro L hL
    have hn : m.steps.toNat = n := (toNat_steps hL h.after).trans hstart
    refine ⟨?_, hn⟩
    rw [UInt64.le_iff_toNat_le, hn]
    have := hbudget L hL
    omega
  · intro req k m' hreq hfree
    rw [UInt64.le_iff_toNat_le]
    cases hL : config.stepLimit with
    | some L =>
      have hL' : m.config.stepLimit = some L := (congrArg Config.stepLimit hconfig).trans hL
      rw [toNat_steps hL' hreq.after]
      exact Nat.le_add_right _ _
    | none =>
      have hn : m.steps.toNat = n := hsteps' (by have := hfree hL; omega)
      rw [(after_counts hreq.after).2, toNat_count (hn.symm ▸ hfree hL)]
      exact Nat.le_add_right _ _

end Machine

/-- Every history leaves a consistent machine, and that of an expression has the environment it began with. -/
theorem machine_stays_consistent :
    (∀ (s : Stmt) (env : Env) (config : Config) (asked : List Request) (n : Nat) (m : Machine Stmt),
      Machine.History (Machine.start s env config) asked n m → m.Consistent env s config n) ∧
    ∀ (e : Expr) (env : Env) (config : Config) (asked : List Request) (n : Nat) (m : Machine Expr),
      Machine.History (Machine.start e env config) asked n m → m.Consistent env e config n ∧ m.env = env := by
  constructor
  · intro s env config asked n m h
    exact h.consistent
  · intro e env config asked n m h
    have hm : m.Consistent env e config n := h.consistent
    exact ⟨hm, Node.env_of_reduct hm.state⟩

/-- A run that the sink breaks off, a step, a run that the limit breaks off, and a step past the limit; and two steps of
an expression, of which the second fails. -/
theorem consistent_after_failures :
    let product : Expr := .binary .mul (.lit (.num 2)) (.lit (.num 3))
    let env : Env := Dict.empty.insert "x" product
    let s : Stmt := .assign "x" (.binary .add (.var "x") (.lit (.num 1)))
    let m : Machine Stmt := ⟨.assign "x" (.binary .add (.lit (.num 6)) (.lit (.num 1))), env, ⟨some 2⟩, 2⟩
    let m' : Machine Expr := ⟨product, env, ⟨some 1⟩, 1⟩
    (Machine.History (Machine.start s env ⟨some 2⟩) [.run (.bounded 3), .step, .run .unbounded, .step] 2 m ∧
      m.Consistent env s ⟨some 2⟩ 2) ∧
    Machine.History (Machine.start (.var "x") env ⟨some 1⟩) [.step, .step] 1 m' ∧
      m'.Consistent env (.var "x") ⟨some 1⟩ 1 ∧ m'.env = env := by
  intro product env s m m'
  let m₀ := Machine.start s env ⟨some 2⟩
  let m₁ : Machine Stmt := ⟨.assign "x" (.binary .add product (.lit (.num 1))), env, ⟨some 2⟩, 1⟩
  have hstep : m₀.step = (m₁, .ok ()) := rfl
  have hlimit : m.step = (m, .error (.limit 2)) := rfl
  have hvar : (Machine.start (.var "x") env ⟨some 1⟩).step = (m', .ok ()) := rfl
  have hlimit' : m'.step = (m', .error (.limit 1)) := rfl
  have h₀ : m₀.run 1 (.bounded 3) = some ⟨m₀, ((Sink.bounded 3).write m₀.line).1, .error .sinkFull⟩ := rfl
  have h₁ : m₁.run 2 .unbounded = some ⟨m, ((Sink.unbounded.write m₁.line).1.write m.line).1, .error (.limit 2)⟩ := rfl
  have h : Machine.History m₀ [.run (.bounded 3), .step, .run .unbounded, .step] 2 m :=
    .next (.next (.next (.next .fresh (.run rfl h₀)) (.step hstep)) (.run rfl h₁)) (.refuse hlimit)
  have h' : Machine.History (Machine.start (.var "x") env ⟨some 1⟩) [.step, .step] 1 m' :=
    .next (.next .fresh (.step hvar)) (.refuse hlimit')
  exact ⟨⟨h, machine_stays_consistent.1 s env ⟨some 2⟩ _ 2 m h⟩, h',
    machine_stays_consistent.2 _ env ⟨some 1⟩ _ 1 m' h'⟩

end WhileLang
