import WhileLang.Proofs.Reduction

/-! A machine without a limit and the evaluator agree on every statement from
every environment: they succeed together with one final environment, and fail
together with one fault, after the same assignments. Bindings may be any
expressions, cyclic ones included, so neither side need end.

Only a finished machine is apart: one more step of it fails, where the
evaluator has succeeded. -/

namespace WhileLang

class LawfulNode (ν : Type) [Node ν] : Prop where
  reducible_of_step {env env' : Env} {a b : ν} :
    Node.step env a = ⟨.ok b, env'⟩ → Node.reducible a = true

instance : LawfulNode Expr where
  reducible_of_step {env env' e e'} h := by
    cases e with
    | lit v => simp [Node.step] at h
    | _ => rfl

instance : LawfulNode Stmt where
  reducible_of_step {env env' s s'} h := by
    cases s with
    | skip => simp [Node.step] at h
    | _ => rfl

section
variable {k : UInt64} {n : Nat}

theorem count_zero : k + .ofNat 0 = k := UInt64.add_zero k

theorem count_succ : k + 1 + .ofNat n = k + .ofNat (n + 1) := by
  rw [UInt64.ofNat_add, UInt64.add_assoc, UInt64.add_comm 1]
  rfl

/-- Where the counter does not overflow, it has the number of steps. -/
theorem toNat_count (h : k.toNat + n < UInt64.size) : (k + .ofNat n).toNat = k.toNat + n := by
  have hn : n < UInt64.size := Nat.lt_of_le_of_lt (Nat.le_add_left _ _) h
  rw [UInt64.toNat_add, UInt64.toNat_ofNat_of_lt' hn]
  exact Nat.mod_eq_of_lt h

end

namespace Machine

variable {ν : Type} [Node ν] {env env' : Env} {a b : ν}

def after : Nat → Machine ν → Option (Machine ν)
  | 0, m => some m
  | n + 1, m =>
    match m.step with
    | (m', .ok ()) => after n m'
    | (_, .error _) => none

theorem step_of_ok {k : UInt64} (h : Node.step env a = ⟨.ok b, env'⟩) :
    step ⟨a, env, ⟨none⟩, k⟩ = (⟨b, env', ⟨none⟩, k + 1⟩, .ok ()) := by
  simp [step, exhausted?, h]

theorem step_of_error {k : UInt64} {f : Fault} (h : Node.step env a = ⟨.error f, env'⟩) :
    step ⟨a, env, ⟨none⟩, k⟩ = (⟨a, env', ⟨none⟩, k⟩, .error (.fault f)) := by
  simp [step, exhausted?, h]

theorem step_counts {m m' : Machine ν} (h : m.step = (m', .ok ())) :
    m'.config = m.config ∧ m'.steps = m.steps + 1 := by
  unfold step at h
  split at h
  · simp at h
  · split at h
    · cases h; exact ⟨rfl, rfl⟩
    · simp at h

theorem after_counts {n : Nat} : ∀ {m m' : Machine ν}, m.after n = some m' →
    m'.config = m.config ∧ m'.steps = m.steps + .ofNat n := by
  induction n with
  | zero => intro m m' h; cases h; exact ⟨rfl, count_zero.symm⟩
  | succ n ih =>
    intro m m' h
    rw [after] at h
    split at h
    · next m₁ hs =>
      obtain ⟨hc, hn⟩ := step_counts hs
      obtain ⟨hc', hn'⟩ := ih h
      exact ⟨hc'.trans hc, by rw [hn', hn, count_succ]⟩
    · simp at h

/-- A run of reductions is a run of the machine without a limit, followed by its end. -/
theorem ends_iff_after [LawfulNode ν] {n : Nat} {o : Outcome ν} : ∀ {k : UInt64} {env : Env} {a : ν}, Ends n env a o ↔
    ∃ b env', after n ⟨a, env, ⟨none⟩, k⟩ = some ⟨b, env', ⟨none⟩, k + .ofNat n⟩ ∧ Ends 0 env' b o := by
  induction n with
  | zero =>
    intro k env a
    rw [count_zero]
    refine ⟨fun h => ⟨a, env, rfl, h⟩, ?_⟩
    rintro ⟨b, env', hm, h⟩
    cases hm
    exact h
  | succ n ih =>
    intro k env a
    rw [← count_succ]
    constructor
    · intro h
      cases h with
      | step hr hs h =>
        obtain ⟨b, env', hm, h0⟩ := ih.1 h
        refine ⟨b, env', ?_, h0⟩
        rw [after, step_of_ok hs]
        exact hm
    · rintro ⟨c, env₂, hm, h0⟩
      rcases hs : Node.step env a with ⟨f | b, env₁⟩
      · rw [after, step_of_error hs] at hm
        simp at hm
      · rw [after, step_of_ok hs] at hm
        exact .step (LawfulNode.reducible_of_step hs) hs (ih.2 ⟨c, env₂, hm, h0⟩)

theorem ends_ok_iff [LawfulNode ν] {n : Nat} : Ends n env a ⟨.ok b, env'⟩ ↔
    (start a env ⟨none⟩).after n = some ⟨b, env', ⟨none⟩, .ofNat n⟩ ∧ Node.reducible b = false := by
  rw [ends_iff_after (k := 0), UInt64.zero_add]
  constructor
  · rintro ⟨c, env₁, hm, h0⟩
    cases h0 with
    | done hr => exact ⟨hm, hr⟩
  · rintro ⟨hm, hr⟩
    exact ⟨b, env', hm, .done hr⟩

theorem ends_error_iff [LawfulNode ν] {n : Nat} {f : Fault} : Ends n env a ⟨.error f, env'⟩ ↔
    ∃ m, (start a env ⟨none⟩).after n = some m ∧ m.reducible = true ∧ m.env = env' ∧
      m.step = (m, .error (.fault f)) := by
  rw [ends_iff_after (k := 0), UInt64.zero_add]
  constructor
  · rintro ⟨b, env₁, hm, h0⟩
    cases h0 with
    | fault hr hs => exact ⟨_, hm, hr, rfl, step_of_error hs⟩
  · rintro ⟨⟨b, env₁, config, k⟩, hm, hr, rfl, hs⟩
    obtain ⟨hc, hk⟩ := after_counts hm
    obtain rfl : config = ⟨none⟩ := hc
    obtain rfl : k = .ofNat n := hk.trans (UInt64.zero_add _)
    refine ⟨b, env₁, hm, ?_⟩
    rcases hb : Node.step env₁ b with ⟨g | c, env₂⟩
    · rw [step_of_error hb] at hs
      cases hs
      exact .fault hr hb
    · rw [step_of_ok hb] at hs
      simp at hs

end Machine

theorem Stmt.run_ok_iff {fuel : Nat} {env env' : Env} {s : Stmt} :
    s.run fuel env = some (.ok env') ↔ s.exec fuel env = some ⟨.ok (), env'⟩ := by
  unfold Stmt.run
  rcases s.exec fuel env with _ | ⟨f | u, env₁⟩ <;> simp [Except.map]

theorem run_succeeds_iff_machine_finishes (s : Stmt) (env env' : Env) :
    (∃ fuel, s.run fuel env = some (.ok env')) ↔
      ∃ n, (Machine.start s env ⟨none⟩).after n = some ⟨.skip, env', ⟨none⟩, .ofNat n⟩ := by
  simp only [Stmt.run_ok_iff]
  rw [Stmt.exec_iff]
  constructor
  · rintro ⟨n, h⟩
    exact ⟨n, (Machine.ends_ok_iff.1 (Stmt.executes_ok_iff.1 h)).1⟩
  · rintro ⟨n, hm⟩
    exact ⟨n, Stmt.executes_ok_iff.2 (Machine.ends_ok_iff.2 ⟨hm, rfl⟩)⟩

/-- The fault is the whole cause, so kind and message agree too. The machine stands still when it fails: its
environment has exactly the assignments that the evaluator made. -/
theorem exec_fails_iff_machine_faults (s : Stmt) (env env' : Env) (f : Fault) :
    (∃ fuel, s.exec fuel env = some ⟨.error f, env'⟩) ↔
      ∃ n m, (Machine.start s env ⟨none⟩).after n = some m ∧ m.node ≠ .skip ∧ m.env = env' ∧
        m.step = (m, .error (.fault f)) := by
  have hskip : ∀ m : Machine Stmt, m.reducible = true ↔ m.node ≠ .skip := by
    intro m
    cases h : m.node <;> simp [Machine.reducible, Node.reducible, Stmt.reducible, h]
  simp only [← hskip]
  rw [Stmt.exec_iff]
  constructor
  · rintro ⟨n, h⟩
    exact ⟨n, Machine.ends_error_iff.1 (Stmt.executes_error_iff.1 h)⟩
  · rintro ⟨n, hm⟩
    exact ⟨n, Stmt.executes_error_iff.2 (Machine.ends_error_iff.2 hm)⟩

/-- Without the condition on the machine's statement this fails: a finished machine refuses a further step, and
the evaluator does not. -/
theorem finished_machine_faults_alone :
    ¬ ((∃ fuel, Stmt.skip.exec fuel .empty = some ⟨.error .finished, .empty⟩) ↔
      ∃ n m, (Machine.start Stmt.skip .empty ⟨none⟩).after n = some m ∧ m.env = .empty ∧
        m.step = (m, .error (.fault .finished))) := by
  intro h
  obtain ⟨fuel, hf⟩ := h.2 ⟨0, _, rfl, rfl, rfl⟩
  cases fuel with
  | zero => simp at hf
  | succ fuel => simp at hf

end WhileLang
