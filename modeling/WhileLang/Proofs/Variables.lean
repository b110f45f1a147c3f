import Mathlib.Data.Set.Defs
import WhileLang.Proofs.BigStep

/-! The names in a program: the variables that it reads and the targets that it assigns
to. A binding is read when its variable is, so what a program can come to read is a
set of names that no binding leads out of (`Env.Closed`). One step stays inside such
a set, has no new target, and writes only what stands at the head of the statement. -/

namespace WhileLang

def Expr.vars : Expr → List Ident
  | lit _ => []
  | binary _ l r => l.vars ++ r.vars
  | var x => [x]

def Stmt.vars : Stmt → List Ident
  | skip => []
  | assign _ e => e.vars
  | ite c t f => c.vars ++ (t.vars ++ f.vars)
  | seq a b => a.vars ++ b.vars
  | loop c body => c.vars ++ body.vars

def Stmt.targets : Stmt → List Ident
  | skip => []
  | assign x _ => [x]
  | ite _ t f => t.targets ++ f.targets
  | seq a b => a.targets ++ b.targets
  | loop _ body => body.targets

namespace Env

variable {env : Env} {x : Ident}

def Reads (env : Env) (x y : Ident) : Prop := ∃ e, env.get? x = some e ∧ y ∈ e.vars

def Closed (env : Env) (V : Set Ident) : Prop := ∀ x ∈ V, ∀ y, env.Reads x y → y ∈ V

theorem lookup_eq_ok {e : Expr} (h : env.lookup x = .ok e) : env.get? x = some e := by
  unfold Env.lookup at h
  cases hx : env.get? x with
  | some e' => simp only [hx] at h; cases h; rfl
  | none => simp [hx] at h

theorem lookup_eq_error {f : Fault} (h : env.lookup x = .error f) : env.get? x = none := by
  unfold Env.lookup at h
  cases hx : env.get? x with
  | some e' => simp [hx] at h
  | none => rfl

end Env

section
variable {env env₁ env₂ : Env} {V : Set Ident} {e e' : Expr} {s s' : Stmt}

/-! ### Expressions -/

/-- A step of an expression depends on its variables only. -/
theorem Expr.step_agree (h : ∀ x ∈ e.vars, env₁.get? x = env₂.get? x) : e.step env₁ = e.step env₂ := by
  induction e with
  | lit v => rfl
  | var x =>
    have hx : env₁.get? x = env₂.get? x := h x (by simp [Expr.vars])
    rw [Expr.step_var, Expr.step_var, Env.lookup, Env.lookup, hx]
  | binary op l r ihl ihr =>
    obtain ⟨hl, hr⟩ := List.forall_mem_append.1 h
    rw [Expr.step_binary, Expr.step_binary, ihl hl, ihr hr]

theorem Expr.vars_of_step (hV : env.Closed V) (hs : e.step env = .ok e') (he : ∀ x ∈ e.vars, x ∈ V) :
    ∀ x ∈ e'.vars, x ∈ V := by
  induction e generalizing e' with
  | lit v => simp at hs
  | var x =>
    -- the variable makes way for its binding
    have hx : x ∈ V := he x (by simp [Expr.vars])
    exact fun y hy => hV x hx y ⟨e', Env.lookup_eq_ok hs, hy⟩
  | binary op l r ihl ihr =>
    obtain ⟨hl, hr⟩ := List.forall_mem_append.1 he
    rw [Expr.step_binary] at hs
    split at hs
    · obtain ⟨l', hl', rfl⟩ := ok_of_map hs
      exact List.forall_mem_append.2 ⟨ihl hl' hl, hr⟩
    · split at hs
      · obtain ⟨r', hr', rfl⟩ := ok_of_map hs
        exact List.forall_mem_append.2 ⟨hl, ihr hr' hr⟩
      · obtain ⟨v, -, rfl⟩ := ok_of_map hs
        simp [Expr.vars]

/-- An expression ends if all its variables do. -/
theorem Expr.evaluates_of_vars (h : ∀ x ∈ e.vars, ∃ w n, (Expr.var x).Evaluates env w n) :
    ∃ w n, e.Evaluates env w n := by
  induction e with
  | lit v => exact ⟨.ok v, 0, .lit v⟩
  | var x => exact h x (by simp [Expr.vars])
  | binary op l r ihl ihr =>
    obtain ⟨hl, hr⟩ := List.forall_mem_append.1 h
    obtain ⟨v, m, hl⟩ := ihl hl
    obtain ⟨w, n, hr⟩ := ihr hr
    cases v with
    | error f => exact ⟨.error f, m, .leftFault hl⟩
    | ok a =>
      cases w with
      | error f => exact ⟨.error f, m + n, .rightFault hl hr⟩
      | ok b =>
        cases hv : op.apply (.lit a) (.lit b) with
        | error f => exact ⟨.error f, m + n, .applyFault hl hr hv⟩
        | ok v => exact ⟨.ok v, m + n + 1, .apply hl hr hv⟩

theorem Expr.tests_of_evaluates {c : Expr} (h : ∃ w n, c.Evaluates env w n) : ∃ w n, c.Tests env w n := by
  obtain ⟨v | v, n, h⟩ := h
  · exact ⟨.error v, n, .fault h⟩
  · exact ⟨_, n, .truth h⟩

/-! ### Statements -/

/-- The statement that the next step is made in: a sequence waits for its first part. -/
def Stmt.head : Stmt → Stmt
  | seq a _ => a.head
  | s => s

/-- The environment once a statement at the head has made its step. Only the assignment of a literal writes. -/
def Stmt.commit (env : Env) : Stmt → Env
  | assign x (.lit v) => env.insert x (.lit v)
  | _ => env

/-- What a step does to the environment is said by the head of the statement, whether the step succeeds or fails. -/
theorem Stmt.step_env (env : Env) (s : Stmt) : (s.step env).env = s.head.commit env := by
  induction s with
  | skip => rfl
  | assign x e => cases e <;> rw [Stmt.step_assign] <;> rfl
  | ite c t f _ _ =>
    rw [Stmt.step_ite]
    split <;> rfl
  | seq a b iha _ =>
    rw [Stmt.step_seq]
    split
    · exact iha
    · next ha =>
      cases a with
      | skip => rfl
      | _ => exact absurd rfl ha
  | loop c body _ => rfl

/-- What is written does not depend on the environment. -/
theorem Stmt.commit_cases (s : Stmt) : (∀ env, s.commit env = env) ∨
    ∃ x v, s = .assign x (.lit v) ∧ ∀ env : Env, s.commit env = env.insert x (.lit v) := by
  by_cases h : ∃ x v, s = .assign x (.lit v)
  · obtain ⟨x, v, rfl⟩ := h
    exact .inr ⟨x, v, rfl, fun _ => rfl⟩
  · refine .inl fun env => ?_
    unfold Stmt.commit
    split
    · next x v => exact absurd ⟨x, v, rfl⟩ h
    · rfl

theorem Stmt.target_of_head {x : Ident} (h : s.head = .assign x e) : x ∈ s.targets := by
  induction s with
  | seq a b iha _ => exact List.mem_append_left _ (iha h)
  | assign y e' =>
    obtain ⟨rfl, -⟩ := Stmt.assign.inj h
    exact List.mem_singleton_self y
  | _ => cases h

theorem Stmt.step_agree (h : ∀ x ∈ s.vars, env₁.get? x = env₂.get? x) :
    (s.step env₁).result = (s.step env₂).result := by
  induction s with
  | skip => rfl
  | assign x e =>
    rw [Stmt.step_assign, Stmt.step_assign, Expr.step_agree h]
    split <;> rfl
  | ite c t f _ _ =>
    obtain ⟨hc, -⟩ := List.forall_mem_append.1 h
    rw [Stmt.step_ite, Stmt.step_ite, Expr.step_agree hc]
    split <;> rfl
  | seq a b iha _ =>
    obtain ⟨ha, -⟩ := List.forall_mem_append.1 h
    rw [Stmt.step_seq, Stmt.step_seq]
    split
    · exact congrArg (Except.map fun a' => Stmt.seq a' b) (iha ha)
    · rfl
  | loop c body _ => rfl

structure Stmt.Inherits (env : Env) (s s' : Stmt) : Prop where
  vars : ∀ V : Set Ident, env.Closed V → (∀ x ∈ s.vars, x ∈ V) → ∀ x ∈ s'.vars, x ∈ V
  targets : s'.targets ⊆ s.targets

theorem Stmt.inherits_of_step (hs : (s.step env).result = .ok s') : s.Inherits env s' := by
  induction s generalizing s' with
  | skip => simp at hs
  | assign x e =>
    rw [Stmt.step_assign] at hs
    split at hs
    · obtain ⟨e', he, rfl⟩ := ok_of_map hs
      exact ⟨fun V hV h => Expr.vars_of_step hV he h, List.Subset.refl _⟩
    · obtain rfl : Stmt.skip = s' := Except.ok.inj hs
      exact ⟨fun V _ _ => List.forall_mem_nil _, List.nil_subset _⟩
  | ite c t f _ _ =>
    rw [Stmt.step_ite] at hs
    split at hs
    · obtain ⟨c', hc, rfl⟩ := ok_of_map hs
      refine ⟨fun V hV h => ?_, List.Subset.refl _⟩
      obtain ⟨h, hbranches⟩ := List.forall_mem_append.1 h
      exact List.forall_mem_append.2 ⟨Expr.vars_of_step hV hc h, hbranches⟩
    · obtain ⟨b, -, rfl⟩ := ok_of_map hs
      have hvars : (if b then t else f).vars ⊆ (Stmt.ite c t f).vars := by
        cases b <;> simp [Stmt.vars]
      refine ⟨fun V _ h x hx => h x (hvars hx), ?_⟩
      cases b <;> simp [Stmt.targets]
  | seq a b iha _ =>
    rw [Stmt.step_seq] at hs
    split at hs
    · obtain ⟨a', ha, rfl⟩ := ok_of_map hs
      obtain ⟨hvars, htargets⟩ := iha ha
      refine ⟨fun V hV h => ?_, ?_⟩
      · obtain ⟨h, hb⟩ := List.forall_mem_append.1 h
        exact List.forall_mem_append.2 ⟨hvars V hV h, hb⟩
      · exact List.append_subset.2
          ⟨fun x hx => List.mem_append_left _ (htargets hx), List.subset_append_right _ _⟩
    · obtain rfl : b = s' := Except.ok.inj hs
      exact ⟨fun V _ h x hx => h x (List.mem_append_right _ hx), List.subset_append_right _ _⟩
  | loop c body _ =>
    obtain rfl : .ite c (.seq body (.loop c body)) .skip = s' := Except.ok.inj hs
    -- unrolling repeats names and brings in none
    refine ⟨fun V _ h x hx => h x ?_, ?_⟩
    · simpa [Stmt.vars, or_assoc, or_comm, or_left_comm] using hx
    · simp [Stmt.targets]

end

end WhileLang
