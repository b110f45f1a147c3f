import WhileLang.Env
import WhileLang.Primitive
import WhileLang.Stmt

/-! Where engines run. An engine is written over the operations that it asks for, in
whatever monad these are. The step of a statement runs in `Update`, the evaluation of
an expression in `Attempt` and that of a statement in `Run`, which both may run out of
fuel. No engine loses the environment when it fails. -/

namespace WhileLang

/-- What a call leaves behind: its result, and the environment also where it fails. -/
structure Outcome (α : Type) where
  result : Except Fault α
  env : Env

namespace Outcome

variable {α β γ : Type}

def map (f : α → β) (o : Outcome α) : Outcome β := ⟨o.result.map f, o.env⟩

theorem map_id (o : Outcome α) : o.map id = o := by
  obtain ⟨r | r, env⟩ := o <;> rfl

theorem map_map (f : α → β) (g : β → γ) (o : Outcome α) : (o.map f).map g = o.map (g ∘ f) := by
  obtain ⟨r | r, env⟩ := o <;> rfl

end Outcome

section
variable {α β : Type} {g : α → β} {b : β} {f : Fault} {env : Env}

theorem ok_of_map {x : Except Fault α} (h : x.map g = .ok b) : ∃ a, x = .ok a ∧ g a = b := by
  cases x with
  | ok a => exact ⟨a, rfl, Except.ok.inj h⟩
  | error f' => cases h

theorem fault_of_map {x : Except Fault α} (h : x.map g = .error f) : x = .error f := by
  cases x with
  | ok a => cases h
  | error f' => cases h; rfl

theorem Outcome.ok_of_map {o : Outcome α} (h : o.map g = ⟨.ok b, env⟩) : ∃ a, o = ⟨.ok a, env⟩ ∧ g a = b := by
  obtain ⟨hresult, rfl⟩ := Outcome.mk.inj h
  obtain ⟨a, ha, hb⟩ := WhileLang.ok_of_map hresult
  exact ⟨a, by rw [← ha], hb⟩

theorem Outcome.fault_of_map {o : Outcome α} (h : o.map g = ⟨.error f, env⟩) : o = ⟨.error f, env⟩ := by
  obtain ⟨hresult, rfl⟩ := Outcome.mk.inj h
  rw [← WhileLang.fault_of_map hresult]

end

/-- A computation that may change the environment. -/
def Update (α : Type) : Type := Env → Outcome α

namespace Update

variable {α β : Type}

@[always_inline]
instance : Monad Update where
  pure a := fun env => ⟨.ok a, env⟩
  bind x g := fun env =>
    match x env with
    | ⟨.error f, env'⟩ => ⟨.error f, env'⟩
    | ⟨.ok a, env'⟩ => g a env'

@[inline] def reading (x : Env → Except Fault α) : Update α := fun env => ⟨x env, env⟩

@[inline] def fail (f : Fault) : Update α := reading fun _ => .error f

@[inline] def assign (x : Ident) (e : Expr) : Update Unit := fun env => ⟨.ok (), env.insert x e⟩

@[inline] def truth (c : Expr) : Update Bool := reading fun _ => c.truth

theorem bind_pure (x : Update α) (f : α → β) (env : Env) : (x >>= fun a => pure (f a)) env = (x env).map f := by
  rcases h : x env with ⟨_ | _, env'⟩ <;> simp only [Bind.bind, h] <;> rfl

end Update

/-- A computation that may fail, or not come to an end. -/
def Attempt (α : Type) : Type := Option (Except Fault α)

namespace Attempt

variable {α : Type}

@[always_inline]
instance : Monad Attempt where
  pure a := some (.ok a)
  bind x g :=
    match x with
    | none => none
    | some (.error f) => some (.error f)
    | some (.ok a) => g a

@[inline] def spent : Attempt α := none

@[inline] def lookup (env : Env) (x : Ident) : Attempt Expr := some (env.lookup x)

@[inline] def apply (op : Op) (a b : Value) : Attempt Value := some (op.apply (.lit a) (.lit b))

@[inline] def truth (v : Value) : Attempt Bool := some (Expr.lit v).truth

end Attempt

/-- A computation that may change the environment, or not come to an end. -/
def Run (α : Type) : Type := Env → Option (Outcome α)

namespace Run

variable {α : Type}

@[always_inline]
instance : Monad Run where
  pure a := fun env => some ⟨.ok a, env⟩
  bind x g := fun env =>
    match x env with
    | none => none
    | some ⟨.error f, env'⟩ => some ⟨.error f, env'⟩
    | some ⟨.ok a, env'⟩ => g a env'

@[inline] def spent : Run α := fun _ => none

@[inline] def reading (x : Env → Attempt α) : Run α := fun env =>
  match x env with
  | none => none
  | some w => some ⟨w, env⟩

@[inline] def assign (x : Ident) (v : Value) : Run Unit := fun env => some ⟨.ok (), env.insert x (.lit v)⟩

theorem bind_unit (x : Run Unit) (y : Run α) (env : Env) : (x >>= fun _ => y) env =
    match x env with
    | none => none
    | some ⟨.error f, env'⟩ => some ⟨.error f, env'⟩
    | some ⟨.ok (), env'⟩ => y env' := by
  rcases h : x env with _ | ⟨_ | _, env'⟩ <;> simp only [Bind.bind, h]

end Run

end WhileLang
