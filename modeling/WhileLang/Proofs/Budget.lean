import WhileLang.Proofs.Reducts

/-! Runs with a step limit into a sink that takes everything. Such a run always
ends, in one of three ways: the node is finished, a reduction fails, or the
budget is spent. Which one it is depends on the reductions alone, and the order
of the checks decides it where two fall on one step: a node that is finished
just at the limit has succeeded, one that would fail there has run out of budget
first. The trace has a line for each state, so a lower limit cuts it short. -/

namespace WhileLang

section
variable {ν : Type} [Node ν] {env env' : Env} {a b : ν} {k n : Nat}

def Node.lineAt? (env : Env) (a : ν) (i : Nat) : Option String :=
  (reduct? i env a).map fun p => Node.line p.2 p.1 ++ "\n"

def Node.trace (n : Nat) (env : Env) (a : ν) : String :=
  String.join ((List.range n).filterMap (lineAt? env a))

namespace Node

theorem trace_one (env : Env) (a : ν) : trace 1 env a = Node.line env a ++ "\n" := by
  simp [trace, lineAt?, reduct?]

theorem trace_succ (h : Node.step env a = ⟨.ok b, env'⟩) :
    trace (n + 1) env a = Node.line env a ++ "\n" ++ trace n env' b := by
  have h0 : lineAt? env a 0 = some (Node.line env a ++ "\n") := rfl
  have hi : lineAt? env a ∘ Nat.succ = lineAt? env' b := by
    funext i
    rw [Function.comp_apply, Nat.succ_eq_add_one, lineAt?, reduct?_of_ok h, lineAt?]
  rw [trace, List.range_succ_eq_map, List.filterMap_cons_some h0, List.filterMap_map, hi, String.join_cons, trace]

theorem trace_prefix (h : k ≤ n) (env : Env) (a : ν) : ∃ rest, trace n env a = trace k env a ++ rest := by
  obtain ⟨i, rfl⟩ := Nat.exists_eq_add_of_le h
  rw [trace, List.range_add, List.filterMap_append, String.join_append]
  exact ⟨_, rfl⟩

end Node

end

namespace Machine

variable {ν : Type} [Node ν] {m m' : Machine ν} {env env' : Env} {a b : ν} {L : UInt64} {n fuel : Nat}
  {result : Except Stop Unit}

inductive Halts (m : Machine ν) : Except Stop Unit → Prop where
  | done : m.reducible = false → Halts m (.ok ())
  | stopped {stop : Stop} : m.reducible = true → m.step = (m, .error stop) → Halts m (.error stop)

theorem run_unbounded (fuel : Nat) (m : Machine ν) (bytes : ByteArray) : m.run (fuel + 1) ⟨none, bytes⟩ =
    if m.reducible then
      match m.step with
      | (m', .ok ()) => m'.run fuel ⟨none, bytes ++ m.line.toUTF8⟩
      | (m', .error stop) => some ⟨m', ⟨none, bytes ++ m.line.toUTF8⟩, .error stop⟩
    else some ⟨m, ⟨none, bytes ++ m.line.toUTF8⟩, .ok ()⟩ := rfl

/-- A run is the steps up to a machine that halts, and traces every machine on the way. -/
theorem run_of_after [AtomicNode ν] (h : m.after n = some m') (hh : m'.Halts result) (hf : n < fuel)
    (bytes : ByteArray) : m.run fuel ⟨none, bytes⟩ =
      some ⟨m', ⟨none, bytes ++ (Node.trace (n + 1) m.env m.node).toUTF8⟩, result⟩ := by
  induction n generalizing m fuel bytes with
  | zero =>
    obtain ⟨fuel, rfl⟩ : ∃ i, fuel = i + 1 := ⟨fuel - 1, by omega⟩
    obtain rfl : m = m' := Option.some.inj h
    rw [run_unbounded, Node.trace_one]
    cases hh with
    | done hr => rw [hr]; rfl
    | stopped hr hs => rw [hr, hs]; rfl
  | succ n ih =>
    obtain ⟨fuel, rfl⟩ : ∃ i, fuel = i + 1 := ⟨fuel - 1, by omega⟩
    have hs := step_cases m
    rw [after] at h
    rw [run_unbounded]
    generalize m.step = p at hs h
    cases hs with
    | spent _ _ => simp at h
    | fault _ _ => simp at h
    | ok _ hb =>
      have hr : m.reducible = true := LawfulNode.reducible_of_step hb
      have hrun := ih h (Nat.lt_of_succ_lt_succ hf) (bytes ++ m.line.toUTF8)
      rw [hr, Node.trace_succ hb]
      simpa [String.toUTF8, line, ByteArray.append_assoc] using hrun

/-- What ends the run of a new machine with limit `L`, and after how many steps. -/
inductive Verdict (env : Env) (a : ν) (L : UInt64) : Nat → Except Stop Unit → Prop where
  | finished {n : Nat} {b : ν} {env' : Env} :
    Ends n env a ⟨.ok b, env'⟩ → n ≤ L.toNat → Verdict env a L n (.ok ())
  | stuck {k : Nat} {f : Fault} {env' : Env} :
    Ends k env a ⟨.error f, env'⟩ → k < L.toNat → Verdict env a L k (.error (.fault f))
  | spent {b : ν} {env' : Env} : Node.reduct? L.toNat env a = some (b, env') → Node.reducible b = true →
    Verdict env a L L.toNat (.error (.limit L))

theorem exists_verdict [AtomicNode ν] (env : Env) (a : ν) (L : UInt64) : ∃ n result, Verdict env a L n result := by
  rcases ends_or_reduct L.toNat env a with ⟨k, ⟨f | b, env'⟩, hk, h⟩ | ⟨b, env', h⟩
  · exact ⟨k, _, .stuck h hk⟩
  · exact ⟨k, _, .finished h (Nat.le_of_lt hk)⟩
  · cases hr : Node.reducible b with
    | true => exact ⟨L.toNat, _, .spent h hr⟩
    | false => exact ⟨L.toNat, _, .finished (ends_iff_reduct.2 ⟨b, env', h, .done hr⟩) (Nat.le_refl _)⟩

theorem Verdict.le (h : Verdict env a L n result) : n ≤ L.toNat := by
  cases h with
  | finished _ hle => exact hle
  | stuck _ hlt => exact Nat.le_of_lt hlt
  | spent _ _ => exact Nat.le_refl _

theorem Verdict.toNat (h : Verdict env a L n result) : (UInt64.ofNat n).toNat = n :=
  UInt64.toNat_ofNat_of_lt' (Nat.lt_of_le_of_lt h.le L.toNat_lt_size)

theorem Verdict.halts [AtomicNode ν] (h : Verdict env a L n result) :
    ∃ b env', Node.reduct? n env a = some (b, env') ∧ Halts ⟨b, env', ⟨some L⟩, .ofNat n⟩ result := by
  have hn := h.toNat
  cases h with
  | finished h _ =>
    obtain ⟨b, env', hb, h0⟩ := ends_iff_reduct.1 h
    cases h0 with
    | done hr => exact ⟨_, _, hb, .done hr⟩
  | stuck h hlt =>
    obtain ⟨b, env', hb, h0⟩ := ends_iff_reduct.1 h
    cases h0 with
    | fault hr hs =>
      refine ⟨_, _, hb, .stopped hr (step_of_fault ?_ hs)⟩
      intro L' hL'
      cases hL'
      rwa [UInt64.lt_iff_toNat_lt, hn]
  | spent hb hr =>
    refine ⟨_, _, hb, .stopped hr (step_of_spent rfl ?_)⟩
    rw [UInt64.ofNat_toNat]
    exact UInt64.le_refl L

/-- The run ends as the verdict says, given the fuel to get there. -/
theorem Verdict.run [AtomicNode ν] (h : Verdict env a L n result) :
    ∃ b env', Node.reduct? n env a = some (b, env') ∧ ∀ fuel, n < fuel →
      (start a env ⟨some L⟩).run fuel .unbounded =
        some ⟨⟨b, env', ⟨some L⟩, .ofNat n⟩, ⟨none, (Node.trace (n + 1) env a).toUTF8⟩, result⟩ := by
  obtain ⟨b, env', hb, hh⟩ := h.halts
  refine ⟨b, env', hb, fun fuel hf => ?_⟩
  have hafter : (start a env ⟨some L⟩).after n = some ⟨b, env', ⟨some L⟩, .ofNat n⟩ := by
    refine after_iff.2 ⟨hb, rfl, (UInt64.zero_add _).symm, ?_⟩
    intro L' hL'
    cases hL'
    exact .inr ((Nat.zero_add n).symm ▸ h.le)
  rw [Sink.unbounded, run_of_after hafter hh hf, ByteArray.empty_append]
  rfl

theorem Verdict.mono [AtomicNode ν] {L' : UInt64} {n' : Nat} {result' : Except Stop Unit} (hL : L ≤ L')
    (h : Verdict env a L n result) (h' : Verdict env a L' n' result') : n ≤ n' := by
  obtain ⟨b, env', hb, -⟩ := h.halts
  cases h' with
  | finished h' _ => exact h'.le hb
  | stuck h' _ => exact h'.le hb
  | spent _ _ => exact Nat.le_trans h.le (UInt64.le_iff_toNat_le.1 hL)

/-- How the run of a new machine with limit `L` has to end, what it leaves of the machine and what it has traced. -/
structure LimitedRun (env : Env) (a : ν) (L : UInt64) (r : Ran ν) : Prop where
  finished : ∀ n b env', Ends n env a ⟨.ok b, env'⟩ → n ≤ L.toNat → r.result = .ok () ∧ r.machine.steps.toNat = n
  stuck : ∀ k f env', Ends k env a ⟨.error f, env'⟩ → k < L.toNat →
    r.result = .error (.fault f) ∧ r.machine.steps.toNat = k
  /-- Neither of the two; the reductions may well fail at the limit itself. -/
  spent : (∀ n b env', Ends n env a ⟨.ok b, env'⟩ → L.toNat < n) →
    (∀ k f env', Ends k env a ⟨.error f, env'⟩ → L.toNat ≤ k) →
    r.result = .error (.limit L) ∧ r.machine.steps = L
  state : Node.reduct? r.machine.steps.toNat env a = some (r.machine.node, r.machine.env)
  trace : r.sink.bytes = (Node.trace (r.machine.steps.toNat + 1) env a).toUTF8

theorem exists_limitedRun [AtomicNode ν] (env : Env) (a : ν) (L : UInt64) : ∃ r,
    (∀ fuel, L.toNat < fuel → (start a env ⟨some L⟩).run fuel .unbounded = some r) ∧
      Verdict env a L r.machine.steps.toNat r.result ∧ LimitedRun env a L r := by
  obtain ⟨n, result, hv⟩ := exists_verdict env a L
  obtain ⟨b, env', hb, hrun⟩ := hv.run
  have hn := hv.toNat
  -- there is one run, so every other verdict is this one
  have hsame : ∀ n' result', Verdict env a L n' result' → result = result' ∧ (UInt64.ofNat n).toNat = n' := by
    intro n' result' hv'
    obtain ⟨b', env₁, -, hrun'⟩ := hv'.run
    have h := (hrun (L.toNat + 1) (Nat.lt_succ_of_le hv.le)).symm.trans
      (hrun' (L.toNat + 1) (Nat.lt_succ_of_le hv'.le))
    simp only [Option.some.injEq, Ran.mk.injEq, Machine.mk.injEq] at h
    exact ⟨h.2.2, by rw [h.1.2.2.2, hv'.toNat]⟩
  refine ⟨_, fun fuel hf => hrun fuel (Nat.lt_of_le_of_lt hv.le hf), by rwa [hn], ?_⟩
  constructor
  · intro n' b' env₁ h hle
    exact hsame _ _ (.finished h hle)
  · intro k f env₁ h hlt
    exact hsame _ _ (.stuck h hlt)
  · intro hfin hstuck
    cases hv with
    | finished h hle => exact absurd hle (Nat.not_le.2 (hfin _ _ _ h))
    | stuck h hlt => exact absurd hlt (Nat.not_lt.2 (hstuck _ _ _ h))
    | spent _ _ => exact ⟨rfl, UInt64.ofNat_toNat⟩
  · rwa [hn]
  · rw [hn]

/-- All limits at once: the runs under growing limits write growing traces. -/
theorem exists_limitedRuns [AtomicNode ν] (env : Env) (a : ν) : ∃ r : UInt64 → Ran ν,
    (∀ L fuel, L.toNat < fuel → (start a env ⟨some L⟩).run fuel .unbounded = some (r L)) ∧
    (∀ L, LimitedRun env a L (r L)) ∧
    ∀ L L', L ≤ L' → ∃ rest, (r L').sink.bytes = (r L).sink.bytes ++ rest := by
  obtain ⟨r, hr⟩ := Classical.skolem.1 (exists_limitedRun env a)
  refine ⟨r, fun L => (hr L).1, fun L => (hr L).2.2, ?_⟩
  intro L L' hL
  obtain ⟨-, hv, hexact⟩ := hr L
  obtain ⟨-, hv', hexact'⟩ := hr L'
  obtain ⟨rest, hrest⟩ := Node.trace_prefix (Nat.succ_le_succ (hv.mono hL hv')) env a
  refine ⟨rest.toUTF8, ?_⟩
  rw [hexact.trace, hexact'.trace, hrest]
  exact String.toByteArray_append

end Machine

/-- Every limited run ends, and as the reductions say; under a lower limit it writes the beginning of what it writes
under a higher one. -/
theorem limited_runs_are_exact :
    (∀ (s : Stmt) (env : Env), ∃ r : UInt64 → Machine.Ran Stmt,
      (∀ L fuel, L.toNat < fuel → (Machine.start s env ⟨some L⟩).run fuel .unbounded = some (r L)) ∧
      (∀ L, Machine.LimitedRun env s L (r L)) ∧
      ∀ L L', L ≤ L' → ∃ rest, (r L').sink.bytes = (r L).sink.bytes ++ rest) ∧
    ∀ (e : Expr) (env : Env), ∃ r : UInt64 → Machine.Ran Expr,
      (∀ L fuel, L.toNat < fuel → (Machine.start e env ⟨some L⟩).run fuel .unbounded = some (r L)) ∧
      (∀ L, Machine.LimitedRun env e L (r L)) ∧
      ∀ L L', L ≤ L' → ∃ rest, (r L').sink.bytes = (r L).sink.bytes ++ rest :=
  ⟨fun s env => Machine.exists_limitedRuns env s, fun e env => Machine.exists_limitedRuns env e⟩

/-- Reductions that fail after one step: a limit of one step is spent before that is found out, a limit of two is not.
Reductions that finish after one step need no more than a limit of one. -/
theorem limit_meets_end :
    let env : Env := Dict.empty.insert "y" (.lit (.num 1))
    let s : Stmt := .assign "x" (.binary .add (.var "y") (.lit (.bool true)))
    let f : Fault := .operands .add .number .boolean
    (Ends 1 env s ⟨.error f, env⟩ ∧ ∃ r r', (Machine.start s env ⟨some 1⟩).run 2 .unbounded = some r ∧
      (Machine.start s env ⟨some 2⟩).run 3 .unbounded = some r' ∧ r.result = .error (.limit 1) ∧
      r'.result = .error (.fault f) ∧ ∃ rest, r'.sink.bytes = r.sink.bytes ++ rest) ∧
    Ends 1 env (Expr.var "y") ⟨.ok (.lit (.num 1)), env⟩ ∧
      ∃ r, (Machine.start (Expr.var "y") env ⟨some 1⟩).run 2 .unbounded = some r ∧ r.result = .ok () := by
  intro env s f
  have hs : Ends 1 env s ⟨.error f, env⟩ := .step rfl rfl (.fault rfl rfl)
  have he : Ends 1 env (Expr.var "y") ⟨.ok (.lit (.num 1)), env⟩ := .step rfl rfl (.done rfl)
  refine ⟨⟨hs, ?_⟩, he, ?_⟩
  · obtain ⟨r, hrun, hexact, hgrows⟩ := limited_runs_are_exact.1 s env
    refine ⟨r 1, r 2, hrun 1 2 (by decide), hrun 2 3 (by decide), ?_, ?_, hgrows 1 2 (by decide)⟩
    · refine ((hexact 1).spent ?_ ?_).1
      · intro n b env' h
        simpa using (hs.unique h).2
      · intro k g env' h
        exact Nat.le_of_eq (hs.unique h).1
    · exact ((hexact 2).stuck 1 f env hs (by decide)).1
  · obtain ⟨r, hrun, hexact, -⟩ := limited_runs_are_exact.2 (.var "y") env
    exact ⟨r 1, hrun 1 2 (by decide), ((hexact 1).finished 1 _ _ he (by decide)).1⟩

end WhileLang
