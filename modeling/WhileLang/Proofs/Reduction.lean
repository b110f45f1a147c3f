import WhileLang.Machine
import WhileLang.Proofs.BigStep

/-! Whole runs of reductions against the rules of evaluation. Forwards, an
evaluation is turned into a run part by part: a part is reduced in place, so its
own run is a run of the whole (`Hole`). Backwards, one reduction does not change
what a node evaluates to (`Evaluates.of_step`, `Executes.of_step`), and a run is
only such reductions. -/

namespace WhileLang

section
variable {ν : Type} [Node ν]

/-- So many reductions succeed; then the node is finished or the next reduction fails. -/
inductive Ends : Nat → Env → ν → Outcome ν → Prop where
  | done {env : Env} {a : ν} : Node.reducible a = false → Ends 0 env a ⟨.ok a, env⟩
  | fault {env : Env} {a : ν} {f : Fault} :
    Node.reducible a = true → Node.step env a = ⟨.error f, env⟩ → Ends 0 env a ⟨.error f, env⟩
  | step {env env' : Env} {a b : ν} {o : Outcome ν} {n : Nat} :
    Node.reducible a = true → Node.step env a = ⟨.ok b, env'⟩ → Ends n env' b o → Ends (n + 1) env a o

end

/-- A place in a node where a reducible part is what the next reduction is made in. -/
structure Hole {α β : Type} [Node α] [Node β] (C : α → β) : Prop where
  reducible : ∀ a, Node.reducible (C a) = true
  step : ∀ env a, Node.reducible a = true → Node.step env (C a) = (Node.step env a).map C

namespace Hole

theorem binaryLeft (op : Op) (r : Expr) : Hole fun l : Expr => Expr.binary op l r where
  reducible _ := rfl
  step env l h := by
    have hl : l.reducible = true := h
    simp [Node.step, Expr.step_binary, Outcome.map, hl]

theorem binaryRight (op : Op) (v : Value) : Hole fun r : Expr => Expr.binary op (.lit v) r where
  reducible _ := rfl
  step env r h := by
    have hr : r.reducible = true := h
    have hl : (Expr.lit v).reducible = false := rfl
    simp [Node.step, Expr.step_binary, Outcome.map, hl, hr]

theorem assign (x : Ident) : Hole fun e : Expr => Stmt.assign x e where
  reducible _ := rfl
  step env e h := by
    have he : e.reducible = true := h
    simp [Node.step, Stmt.step_assign, Outcome.map, he]

theorem condition (t e : Stmt) : Hole fun c : Expr => Stmt.ite c t e where
  reducible _ := rfl
  step env c h := by
    have hc : c.reducible = true := h
    simp [Node.step, Stmt.step_ite, Outcome.map, hc]

theorem first (b : Stmt) : Hole fun a : Stmt => Stmt.seq a b where
  reducible _ := rfl
  step env a h := by
    have ha : a.reducible = true := h
    simp [Node.step, Stmt.step_seq, ha]

section
variable {α β : Type} [Node α] [Node β] {C : α → β} {n m : Nat} {env env' : Env} {a b : α}

/-- Where a part fails, the whole does. -/
theorem fault {f : Fault} (hC : Hole C) (h : Ends n env a ⟨.error f, env'⟩) :
    Ends n env (C a) ⟨.error f, env'⟩ := by
  generalize ho : (⟨.error f, env'⟩ : Outcome α) = o at h
  induction h with
  | done _ => simp at ho
  | fault hr hs =>
    cases ho
    exact .fault (hC.reducible _) (by rw [hC.step _ _ hr, hs]; rfl)
  | step hr hs _ ih =>
    exact .step (hC.reducible _) (by rw [hC.step _ _ hr, hs]; rfl) (ih ho)

/-- Once a part is finished, the whole goes on from there. -/
theorem andThen {o : Outcome β} (hC : Hole C) (h : Ends n env a ⟨.ok b, env'⟩)
    (ho : Ends m env' (C b) o) : Ends (n + m) env (C a) o := by
  generalize hp : (⟨.ok b, env'⟩ : Outcome α) = p at h
  induction h with
  | done _ => cases hp; rwa [Nat.zero_add]
  | fault _ _ => simp at hp
  | step hr hs _ ih =>
    rw [Nat.succ_add]
    exact .step (hC.reducible _) (by rw [hC.step _ _ hr, hs]; rfl) (ih hp)

end

end Hole

section
variable {env env' : Env} {n : Nat}

theorem Expr.Evaluates.ends {e : Expr} {w : Except Fault Value} (h : e.Evaluates env w n) :
    Ends n env e ⟨w.map .lit, env⟩ := by
  induction h with
  | lit v => exact .done rfl
  | unbound hx => exact .fault rfl (by simp [Node.step, hx])
  | var hx _ ih => exact .step rfl (by simp [Node.step, hx]) ih
  | leftFault _ ih => exact (Hole.binaryLeft _ _).fault ih
  | rightFault _ _ ihl ihr => exact (Hole.binaryLeft _ _).andThen ihl ((Hole.binaryRight _ _).fault ihr)
  | applyFault _ _ hv ihl ihr =>
    refine (Hole.binaryLeft _ _).andThen ihl ((Hole.binaryRight _ _).andThen ihr (.fault rfl ?_))
    simp [Node.step, Expr.step_binary, Expr.reducible, hv, Except.map]
  | apply _ _ hv ihl ihr =>
    rw [Nat.add_assoc]
    refine (Hole.binaryLeft _ _).andThen ihl ((Hole.binaryRight _ _).andThen ihr (.step rfl ?_ (.done rfl)))
    simp [Node.step, Expr.step_binary, Expr.reducible, hv, Except.map]

theorem Stmt.Executes.ends {s : Stmt} {o : Outcome Unit} (h : s.Executes env o n) :
    Ends n env s (o.map fun _ => .skip) := by
  induction h with
  | skip env => exact .done rfl
  | assignFault he => exact (Hole.assign _).fault he.ends
  | assign he => exact (Hole.assign _).andThen he.ends (.step rfl rfl (.done rfl))
  | iteFault hc =>
    generalize hw : Except.error _ = w at hc
    cases hc with
    | fault hc => cases hw; exact (Hole.condition _ _).fault hc.ends
    | truth hc =>
      refine (Hole.condition _ _).andThen hc.ends (.fault rfl ?_)
      simp [Node.step, Stmt.step_ite, Expr.reducible, ← hw, Except.map]
  | @ite env c t e b o m n hc _ ih =>
    generalize hw : Except.ok b = w at hc
    cases hc with
    | fault hc => simp at hw
    | truth hc =>
      rw [Nat.add_assoc, Nat.add_comm 1 n]
      refine (Hole.condition t e).andThen hc.ends (.step rfl ?_ ih)
      simp [Node.step, Stmt.step_ite, Expr.reducible, ← hw, Except.map]
  | seqFault _ ih => exact (Hole.first _).fault ih
  | @seq _ _ _ _ _ m n _ _ iha ihb =>
    rw [Nat.add_assoc, Nat.add_comm 1 n]
    exact (Hole.first _).andThen iha (.step rfl rfl ihb)
  | loop _ ih => exact .step rfl rfl ih

theorem Outcome.map_inj {α β : Type} {f : α → β} (hf : ∀ a b, f a = f b → a = b) {o p : Outcome α}
    (h : o.map f = p.map f) : o = p := by
  rcases o with ⟨g | a, env⟩ <;> rcases p with ⟨g' | b, env'⟩ <;> simp [Outcome.map, Except.map] at h ⊢
  · exact h
  · exact ⟨hf a b h.1, h.2⟩

theorem Expr.reducible_eq_false {e : Expr} (h : ¬ e.reducible = true) : ∃ v, e = .lit v := by
  cases e with
  | lit v => exact ⟨v, rfl⟩
  | binary op l r => exact absurd rfl h
  | var x => exact absurd rfl h

theorem Stmt.reducible_eq_false {s : Stmt} (h : ¬ s.reducible = true) : s = .skip := by
  cases s with
  | skip => rfl
  | _ => exact absurd rfl h

theorem Expr.Evaluates.of_step {e e' : Expr} {w : Except Fault Value} (hs : e.step env = .ok e')
    (h : e'.Evaluates env w n) : e.Evaluates env w (n + 1) := by
  induction e generalizing e' w n with
  | lit v => simp at hs
  | var x => exact .var hs h
  | binary op l r ihl ihr =>
    rw [Expr.step_binary] at hs
    split at hs
    · -- inside the left operand
      obtain ⟨l', hl, rfl⟩ := ok_of_map hs
      cases h with
      | leftFault h' => exact .leftFault (ihl hl h')
      | rightFault h' hr => exact (Evaluates.rightFault (ihl hl h') hr).recount (by omega)
      | applyFault h' hr hv => exact (Evaluates.applyFault (ihl hl h') hr hv).recount (by omega)
      | apply h' hr hv => exact (Evaluates.apply (ihl hl h') hr hv).recount (by omega)
    · split at hs
      · -- inside the right operand, the left one being a literal
        next hl _ =>
        obtain ⟨a, rfl⟩ := Expr.reducible_eq_false hl
        obtain ⟨r', hr, rfl⟩ := ok_of_map hs
        cases h with
        | leftFault h' => cases h'
        | rightFault hl' h' => exact (Evaluates.rightFault hl' (ihr hr h')).recount (by omega)
        | applyFault hl' h' hv => exact (Evaluates.applyFault hl' (ihr hr h') hv).recount (by omega)
        | apply hl' h' hv => exact (Evaluates.apply hl' (ihr hr h') hv).recount (by omega)
      · next hl hr =>
        obtain ⟨a, rfl⟩ := Expr.reducible_eq_false hl
        obtain ⟨b, rfl⟩ := Expr.reducible_eq_false hr
        obtain ⟨v, hv, rfl⟩ := ok_of_map hs
        cases h with
        | lit => exact .apply (.lit a) (.lit b) hv

theorem Expr.Evaluates.of_fault {e : Expr} {f : Fault} (hr : e.reducible = true)
    (hs : e.step env = .error f) : e.Evaluates env (.error f) 0 := by
  induction e with
  | lit v => simp [Expr.reducible] at hr
  | var x => exact .unbound hs
  | binary op l r ihl ihr =>
    rw [Expr.step_binary] at hs
    split at hs
    · next hl => exact .leftFault (ihl hl (fault_of_map hs))
    · next hl =>
      obtain ⟨a, rfl⟩ := Expr.reducible_eq_false hl
      split at hs
      · next hr' => exact .rightFault (.lit a) (ihr hr' (fault_of_map hs))
      · next hr' =>
        obtain ⟨b, rfl⟩ := Expr.reducible_eq_false hr'
        exact .applyFault (.lit a) (.lit b) (fault_of_map hs)

theorem Expr.Tests.of_step {c c' : Expr} {w : Except Fault Bool} (hs : c.step env = .ok c')
    (h : c'.Tests env w n) : c.Tests env w (n + 1) := by
  cases h with
  | fault h' => exact .fault (.of_step hs h')
  | truth h' => exact .truth (.of_step hs h')

theorem Expr.evaluates_of_ends {e : Expr} {o : Outcome Expr} (h : Ends n env e o) :
    ∃ w, o = ⟨w.map .lit, env⟩ ∧ e.Evaluates env w n := by
  induction h with
  | @done env e hr =>
    obtain ⟨v, rfl⟩ := Expr.reducible_eq_false (e := e) (Bool.eq_false_iff.1 hr)
    exact ⟨.ok v, rfl, .lit v⟩
  | @fault env e f hr hs => exact ⟨.error f, rfl, .of_fault hr (congrArg Outcome.result hs)⟩
  | @step env env' e e' o n hr hs _ ih =>
    obtain ⟨hs', rfl⟩ := Outcome.mk.inj hs
    obtain ⟨w, hw, hn⟩ := ih
    exact ⟨w, hw, .of_step hs' hn⟩

/-- The rules give an expression the end that its reductions come to, after as many of them. -/
theorem Expr.evaluates_iff_ends {e : Expr} {w : Except Fault Value} :
    e.Evaluates env w n ↔ Ends n env e ⟨w.map .lit, env⟩ := by
  refine ⟨fun h => h.ends, fun h => ?_⟩
  obtain ⟨w', hw, hn⟩ := Expr.evaluates_of_ends h
  have hsame : (⟨w, env⟩ : Outcome Value) = ⟨w', env⟩ := Outcome.map_inj (fun _ _ => Expr.lit.inj) hw
  cases hsame
  exact hn

theorem Stmt.Executes.of_step {s s' : Stmt} {o : Outcome Unit} (hs : s.step env = ⟨.ok s', env'⟩)
    (h : s'.Executes env' o n) : s.Executes env o (n + 1) := by
  induction s generalizing s' o n with
  | skip => simp at hs
  | assign x e =>
    rw [Stmt.step_assign] at hs
    split at hs
    · obtain ⟨hresult, rfl⟩ := Outcome.mk.inj hs
      obtain ⟨e', he, rfl⟩ := ok_of_map hresult
      cases h with
      | assignFault h' => exact .assignFault (.of_step he h')
      | assign h' => exact .assign (.of_step he h')
    · next he =>
      obtain ⟨v, rfl⟩ := Expr.reducible_eq_false he
      obtain ⟨hs, rfl⟩ := Outcome.mk.inj hs
      cases hs
      cases h with
      | skip => exact .assign (.lit v)
  | ite c t e _ _ =>
    rw [Stmt.step_ite] at hs
    split at hs
    · obtain ⟨hresult, rfl⟩ := Outcome.mk.inj hs
      obtain ⟨c', hc, rfl⟩ := ok_of_map hresult
      cases h with
      | iteFault h' => exact .iteFault (.of_step hc h')
      | ite h' hb => exact (Executes.ite (.of_step hc h') hb).recount (by omega)
    · next hc =>
      obtain ⟨v, rfl⟩ := Expr.reducible_eq_false hc
      obtain ⟨hresult, rfl⟩ := Outcome.mk.inj hs
      obtain ⟨b, hv, rfl⟩ := ok_of_map hresult
      have ht : (Expr.lit v).Tests env (.ok b) 0 := by rw [← hv]; exact .truth (.lit v)
      exact (Executes.ite ht h).recount (by omega)
  | seq a b iha ihb =>
    rw [Stmt.step_seq] at hs
    split at hs
    · obtain ⟨a', ha, rfl⟩ := Outcome.ok_of_map hs
      cases h with
      | seqFault h' => exact .seqFault (iha ha h')
      | seq h' hb => exact (Executes.seq (iha ha h') hb).recount (by omega)
    · next ha =>
      obtain rfl := Stmt.reducible_eq_false ha
      cases hs
      exact (Executes.seq (.skip env) h).recount (by omega)
  | loop c body _ =>
    cases hs
    exact .loop h

theorem Stmt.Executes.of_fault {s : Stmt} {f : Fault} (hr : s.reducible = true)
    (hs : s.step env = ⟨.error f, env'⟩) : s.Executes env ⟨.error f, env'⟩ 0 := by
  induction s with
  | skip => simp [Stmt.reducible] at hr
  | assign x e =>
    rw [Stmt.step_assign] at hs
    split at hs
    · next he =>
      obtain ⟨hresult, rfl⟩ := Outcome.mk.inj hs
      exact .assignFault (.of_fault he (fault_of_map hresult))
    · simp at hs
  | ite c t e _ _ =>
    rw [Stmt.step_ite] at hs
    split at hs
    · next hc =>
      obtain ⟨hresult, rfl⟩ := Outcome.mk.inj hs
      exact .iteFault (.fault (.of_fault hc (fault_of_map hresult)))
    · next hc =>
      obtain ⟨v, rfl⟩ := Expr.reducible_eq_false hc
      obtain ⟨hresult, rfl⟩ := Outcome.mk.inj hs
      have ht : (Expr.lit v).Tests env (.error f) 0 := by rw [← fault_of_map hresult]; exact .truth (.lit v)
      exact .iteFault ht
  | seq a b iha _ =>
    rw [Stmt.step_seq] at hs
    split at hs
    · next ha => exact .seqFault (iha ha (Outcome.fault_of_map hs))
    · simp at hs
  | loop c body _ => simp at hs

theorem Stmt.executes_of_ends {s : Stmt} {o : Outcome Stmt} (h : Ends n env s o) :
    ∃ p : Outcome Unit, o = p.map (fun _ => .skip) ∧ s.Executes env p n := by
  induction h with
  | @done env s hr =>
    obtain rfl := Stmt.reducible_eq_false (s := s) (Bool.eq_false_iff.1 hr)
    exact ⟨⟨.ok (), env⟩, rfl, .skip env⟩
  | @fault env s f hr hs => exact ⟨⟨.error f, env⟩, rfl, .of_fault hr hs⟩
  | @step env env' s s' o n hr hs _ ih =>
    obtain ⟨p, hp, hn⟩ := ih
    exact ⟨p, hp, .of_step hs hn⟩

/-- The rules give a statement the end that its reductions come to, after as many of them. -/
theorem Stmt.executes_iff_ends {s : Stmt} {o : Outcome Unit} :
    s.Executes env o n ↔ Ends n env s (o.map fun _ => .skip) := by
  refine ⟨fun h => h.ends, fun h => ?_⟩
  obtain ⟨p, hp, hn⟩ := Stmt.executes_of_ends h
  obtain rfl : o = p := Outcome.map_inj (fun _ _ _ => rfl) hp
  exact hn

theorem Stmt.executes_ok_iff {s : Stmt} : s.Executes env ⟨.ok (), env'⟩ n ↔ Ends n env s ⟨.ok .skip, env'⟩ :=
  Stmt.executes_iff_ends

theorem Stmt.executes_error_iff {s : Stmt} {f : Fault} :
    s.Executes env ⟨.error f, env'⟩ n ↔ Ends n env s ⟨.error f, env'⟩ :=
  Stmt.executes_iff_ends

end

end WhileLang
