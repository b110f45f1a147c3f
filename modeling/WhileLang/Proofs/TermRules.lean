import WhileLang.Code.Meaning

/-! Rules for what generated terms do, without their fuel. A term yields an
answer if it gives it with every fuel from some point on; `eval_mono` says that
giving it once is enough. There is one rule for each way in which a construct
goes on, and `Yields.stop` for a part that traps. -/

namespace WhileLang.Code

section
variable {α β : Type}

theorem run_bind_ok {x : Run α} {f : α → Run β} {a : α} (h : x.run = some (.ok a)) :
    (x >>= f).run = (f a).run := by
  cases h
  rfl

theorem run_bind_error {x : Run α} {f : α → Run β} {t : Trap} (h : x.run = some (.error t)) :
    (x >>= f).run = some (.error t) := by
  cases h
  rfl

theorem run_bind_cases {x : Run α} {f : α → Run β} {r : Except Trap β} (h : (x >>= f).run = some r) :
    (∃ t, x.run = some (.error t) ∧ r = .error t) ∨ ∃ a, x.run = some (.ok a) ∧ (f a).run = some r := by
  rcases hx : x.run with _ | t | a
  · cases hx
    simp [bind, ExceptT.bind, ExceptT.mk, ExceptT.run] at h
  · rw [run_bind_error hx] at h
    cases h
    exact .inl ⟨t, rfl, rfl⟩
  · rw [run_bind_ok hx] at h
    exact .inr ⟨a, rfl, h⟩

theorem run_bind_first {x : Run α} {f : α → Run β} {r : Except Trap β} (h : (x >>= f).run = some r) :
    ∃ q, x.run = some q := by
  rcases run_bind_cases h with ⟨t, ht, _⟩ | ⟨a, ha, _⟩
  · exact ⟨_, ht⟩
  · exact ⟨_, ha⟩

def Run.Extends (y x : Run α) : Prop := ∀ r, x.run = some r → y.run = some r

theorem Run.Extends.refl (x : Run α) : x.Extends x := fun _ h => h

theorem Run.Extends.bind {x y : Run α} {f g : α → Run β} (hx : y.Extends x) (hf : ∀ a, (g a).Extends (f a)) :
    (y >>= g).Extends (x >>= f) := by
  intro r h
  rcases run_bind_cases h with ⟨t, ht, rfl⟩ | ⟨a, ha, hr⟩
  · exact run_bind_error (hx _ ht)
  · rw [run_bind_ok (hx _ ha)]
    exact hf a r hr

end

theorem Term.eval_mono : ∀ {fuel fuel' : Nat} {σ : Scope} {t : Term}, fuel ≤ fuel' →
    (t.eval fuel' σ).Extends (t.eval fuel σ) := by
  intro fuel
  induction fuel with
  | zero => intro fuel' σ t _ r h; simp [Term.eval, ExceptT.run] at h
  | succ fuel ih =>
    intro fuel' σ t hle
    obtain ⟨k, rfl⟩ : ∃ k, fuel' = k + 1 := ⟨fuel' - 1, by omega⟩
    have hk : fuel ≤ k := by omega
    cases t with
    | var x => exact .refl _
    | text s => exact .refl _
    | closure b takes gives body => exact .refl _
    | apply f a =>
      cases f with
      | closure b takes gives body => exact (ih hk).bind fun d => ih hk
      | _ => exact .refl _
    | entry m key => exact (ih hk).bind fun d => .refl _
    | borrow a => exact ih hk
    | letNumber x a body =>
      exact (ih hk).bind fun d => (Run.Extends.refl _).bind fun s => (Run.Extends.refl _).bind fun n => ih hk
    | letIn x a body => exact (ih hk).bind fun d => ih hk
    | truth a => exact (ih hk).bind fun d => .refl _
    | sum a b =>
      exact (ih hk).bind fun d => (Run.Extends.refl _).bind fun m => (ih hk).bind fun d' => .refl _
    | product a b =>
      exact (ih hk).bind fun d => (Run.Extends.refl _).bind fun m => (ih hk).bind fun d' => .refl _
    | less a b =>
      exact (ih hk).bind fun d => (Run.Extends.refl _).bind fun m => (ih hk).bind fun d' => .refl _
    | display a => exact (ih hk).bind fun d => .refl _
    | insert x key a body =>
      exact (ih hk).bind fun d => (Run.Extends.refl _).bind fun s => (Run.Extends.refl _).bind fun d' =>
        (Run.Extends.refl _).bind fun m => ih hk
    | choose c t f =>
      refine (ih hk).bind fun d => (Run.Extends.refl _).bind fun b => ?_
      cases b
      · exact ih hk
      · exact ih hk
    | repeatWhile c x a body =>
      refine (ih hk).bind fun d => (Run.Extends.refl _).bind fun b => ?_
      cases b
      · exact ih hk
      · exact (ih hk).bind fun d => ih hk

/-- The answer of a term in a scope, with every fuel from some point on. -/
def Term.Yields (t : Term) (σ : Scope) (r : Except Trap Datum) : Prop :=
  ∃ enough, ∀ fuel, enough ≤ fuel → (t.eval fuel σ).run = some r

namespace Term.Yields

section
variable {t a b body : Term} {σ : Scope} {d : Datum} {r q : Except Trap Datum} {k : Nat → Datum → Run Datum}

theorem eval (h : t.Yields σ r) : ∃ fuel, (t.eval fuel σ).run = some r := by
  obtain ⟨enough, h⟩ := h
  exact ⟨enough, h enough (Nat.le_refl _)⟩

theorem unique {fuel : Nat} (h : t.Yields σ r) (hq : (t.eval fuel σ).run = some q) : q = r := by
  obtain ⟨enough, h⟩ := h
  have hbig := h (max enough fuel) (Nat.le_max_left ..)
  rw [Term.eval_mono (Nat.le_max_right ..) q hq] at hbig
  simpa using hbig

/-- One unit of fuel is for the term itself. -/
theorem of_succ {n : Nat} (h : ∀ fuel, n ≤ fuel → (t.eval (fuel + 1) σ).run = some r) : t.Yields σ r := by
  refine ⟨n + 1, fun fuel hle => ?_⟩
  obtain ⟨m, rfl⟩ : ∃ m, fuel = m + 1 := ⟨fuel - 1, by omega⟩
  exact h m (by omega)

/-- A term that starts with a part goes on from what the part yields. -/
theorem next (ht : ∀ fuel, t.eval (fuel + 1) σ = a.eval fuel σ >>= k fuel) (ha : a.Yields σ (.ok d))
    (hk : ∃ enough, ∀ fuel, enough ≤ fuel → (k fuel d).run = some r) : t.Yields σ r := by
  obtain ⟨i, hi⟩ := ha
  obtain ⟨j, hj⟩ := hk
  refine of_succ (n := max i j) fun fuel hle => ?_
  rw [ht, run_bind_ok (hi fuel (by omega))]
  exact hj fuel (by omega)

/-- Conversely, an answer of what starts with the part comes from going on. -/
theorem rest {fuel : Nat} {f : Datum → Run Datum} (ha : a.Yields σ (.ok d))
    (h : (a.eval fuel σ >>= f).run = some r) : (f d).run = some r := by
  rcases run_bind_cases h with ⟨trap, htrap, _⟩ | ⟨d', hd, hr⟩
  · cases ha.unique htrap
  · cases ha.unique hd
    exact hr

/-- It traps as the part does. -/
theorem stop {trap : Trap} (ht : ∀ fuel, t.eval (fuel + 1) σ = a.eval fuel σ >>= k fuel)
    (ha : a.Yields σ (.error trap)) : t.Yields σ (.error trap) := by
  obtain ⟨i, hi⟩ := ha
  refine of_succ (n := i) fun fuel hle => ?_
  rw [ht]
  exact run_bind_error (hi fuel hle)

theorem var {x : String} (h : σ.get? x = some d) : (Term.var x).Yields σ (.ok d) := by
  refine of_succ (n := 0) fun fuel _ => ?_
  simp [Term.eval, inScope, h]

theorem bound (σ : Scope) (x : String) (d : Datum) : (Term.var x).Yields (σ.insert x d) (.ok d) :=
  var (Dict.get?_insert_self σ x d)

theorem text (s : String) : (Term.text s).Yields σ (.ok (.text s)) :=
  of_succ (n := 0) fun _ _ => rfl

theorem apply {p : Binder} {takes gives : Ty} (ha : a.Yields σ (.ok d)) (hb : body.Yields (p.bind d σ) r) :
    (Term.apply (.closure p takes gives body) a).Yields σ r :=
  next (fun _ => rfl) ha hb

theorem entry {m : Dict String} {key s : String} (ha : a.Yields σ (.ok (.store m))) (hs : m.get? key = some s) :
    (Term.entry a key).Yields σ (.ok (.text s)) :=
  next (fun _ => rfl) ha ⟨0, fun _ _ => by simp [asStore, orAbort, hs]⟩

theorem entry_missing {m : Dict String} {key : String} (ha : a.Yields σ (.ok (.store m))) (hs : m.get? key = none) :
    (Term.entry a key).Yields σ (.error .aborted) :=
  next (fun _ => rfl) ha ⟨0, fun _ _ => by simp [asStore, orAbort, hs]⟩

theorem borrow (ha : a.Yields σ r) : (Term.borrow a).Yields σ r := by
  obtain ⟨i, hi⟩ := ha
  exact of_succ hi

theorem letIn {x : String} (ha : a.Yields σ (.ok d)) (hb : body.Yields (σ.insert x d) r) :
    (Term.letIn x a body).Yields σ r :=
  next (fun _ => rfl) ha hb

theorem letNumber {x s : String} {n : Int64} (ha : a.Yields σ (.ok (.text s))) (hs : readNumber? s = some n)
    (hb : body.Yields (σ.insert x (.number n)) r) : (Term.letNumber x a body).Yields σ r := by
  obtain ⟨j, hj⟩ := hb
  refine next (fun _ => rfl) ha ⟨j, fun fuel hle => ?_⟩
  simpa [asText, orAbort, hs] using hj fuel hle

theorem letNumber_unread {x s : String} (ha : a.Yields σ (.ok (.text s))) (hs : readNumber? s = none) :
    (Term.letNumber x a body).Yields σ (.error .aborted) :=
  next (fun _ => rfl) ha ⟨0, fun _ _ => by simp [asText, orAbort, hs]⟩

theorem truth {s : String} {c : Bool} (ha : a.Yields σ (.ok (.text s))) (hs : readTruth? s = some c) :
    (Term.truth a).Yields σ (.ok (.truth c)) :=
  next (fun _ => rfl) ha ⟨0, fun _ _ => by simp [asText, orAbort, hs]⟩

theorem truth_unread {s : String} (ha : a.Yields σ (.ok (.text s))) (hs : readTruth? s = none) :
    (Term.truth a).Yields σ (.error .aborted) :=
  next (fun _ => rfl) ha ⟨0, fun _ _ => by simp [asText, orAbort, hs]⟩

/-- An operator that reads its operands as numbers and goes on from both. -/
theorem onNumbers {g : Int64 → Int64 → Run Datum} {m n : Int64}
    (ht : ∀ fuel, t.eval (fuel + 1) σ = (do
      let m ← asNumber (← a.eval fuel σ)
      let n ← asNumber (← b.eval fuel σ)
      g m n))
    (ha : a.Yields σ (.ok (.number m))) (hb : b.Yields σ (.ok (.number n))) (hg : (g m n).run = some r) :
    t.Yields σ r := by
  obtain ⟨j, hj⟩ := hb
  refine next ht ha ⟨j, fun fuel hle => ?_⟩
  simp only [asNumber, pure_bind]
  rw [run_bind_ok (hj fuel hle)]
  simpa [asNumber] using hg

theorem display {s : String} (ha : a.Yields σ (.ok d)) (hs : displayed d = pure s) :
    (Term.display a).Yields σ (.ok (.text s)) :=
  next (fun _ => rfl) ha ⟨0, fun _ _ => by simp [hs]⟩

theorem insert {x key s : String} {m : Dict String} (ha : a.Yields σ (.ok (.text s)))
    (hx : σ.get? x = some (.store m)) (hb : body.Yields (σ.insert x (.store (m.insert key s))) r) :
    (Term.insert x key a body).Yields σ r := by
  obtain ⟨j, hj⟩ := hb
  refine next (fun _ => rfl) ha ⟨j, fun fuel hle => ?_⟩
  simpa [asText, inScope, asStore, hx] using hj fuel hle

theorem choose {c t f : Term} {b : Bool} (hc : c.Yields σ (.ok (.truth b)))
    (hb : (if b then t else f).Yields σ r) : (Term.choose c t f).Yields σ r := by
  obtain ⟨j, hj⟩ := hb
  refine next (fun _ => rfl) hc ⟨j, fun fuel hle => ?_⟩
  cases b <;> simpa [asTruth] using hj fuel hle

theorem choose_rest {fuel : Nat} {c t f : Term} {b : Bool} (hc : c.Yields σ (.ok (.truth b)))
    (h : ((Term.choose c t f).eval (fuel + 1) σ).run = some r) :
    ((if b then t else f).eval fuel σ).run = some r := by
  have hrest := rest (f := fun d => do if ← asTruth d then t.eval fuel σ else f.eval fuel σ) hc h
  cases b <;> simpa [asTruth] using hrest

section
variable {c : Term} {x : String}

theorem repeatWhile_done (hc : c.Yields σ (.ok (.truth false))) (hb : body.Yields σ r) :
    (Term.repeatWhile c x a body).Yields σ r := by
  obtain ⟨j, hj⟩ := hb
  refine next (fun _ => rfl) hc ⟨j, fun fuel hle => ?_⟩
  simpa [asTruth] using hj fuel hle

theorem repeatWhile_again (hc : c.Yields σ (.ok (.truth true))) (ha : a.Yields σ (.ok d))
    (hb : (Term.repeatWhile c x a body).Yields (σ.insert x d) r) : (Term.repeatWhile c x a body).Yields σ r := by
  obtain ⟨i, hi⟩ := ha
  obtain ⟨j, hj⟩ := hb
  refine next (fun _ => rfl) hc ⟨max i j, fun fuel hle => ?_⟩
  simp only [asTruth, pure_bind, if_true]
  rw [run_bind_ok (hi fuel (by omega))]
  exact hj fuel (by omega)

theorem repeatWhile_stop {trap : Trap} (hc : c.Yields σ (.ok (.truth true))) (ha : a.Yields σ (.error trap)) :
    (Term.repeatWhile c x a body).Yields σ (.error trap) := by
  obtain ⟨i, hi⟩ := ha
  refine next (fun _ => rfl) hc ⟨i, fun fuel hle => ?_⟩
  simp only [asTruth, pure_bind, if_true]
  exact run_bind_error (hi fuel hle)

theorem repeatWhile_rest {fuel : Nat} (hc : c.Yields σ (.ok (.truth true)))
    (h : ((Term.repeatWhile c x a body).eval (fuel + 1) σ).run = some r) :
    (a.eval fuel σ >>= fun d => (Term.repeatWhile c x a body).eval fuel (σ.insert x d)).run = some r := by
  have hrest := rest (f := fun d => do
    if ← asTruth d then
      let d ← a.eval fuel σ
      (Term.repeatWhile c x a body).eval fuel (σ.insert x d)
    else body.eval fuel σ) hc h
  simpa [asTruth] using hrest

end

end

end Term.Yields

end WhileLang.Code
