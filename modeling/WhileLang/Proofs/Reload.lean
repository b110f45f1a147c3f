import WhileLang.Proofs.ReadBack

/-! Whatever text a value was loaded from, its own document can be loaded again. Texts
have many spellings that no value is written in, so nothing is said of them but
this: a reader that may open `n` levels gives a value of at most `n` levels. That
much goes through every reader by itself (`Yields`), and then the document of the
value does not nest too deep. -/

namespace WhileLang

namespace Json

def Yields {α : Type} (r : Reader α) (P : α → Prop) : Prop := ∀ s a s', r s = .ok (a, s') → P a

namespace Yields

variable {α β : Type} {r : Reader α} {f : α → Reader β} {P : α → Prop} {Q : β → Prop} {a : α} {e : ReadError}

theorem bind (hr : Yields r P) (hf : ∀ a, P a → Yields (f a) Q) : Yields (r >>= f) Q := by
  intro s b s' h
  cases hs : r s with
  | error e =>
    rw [bind_error hs] at h
    cases h
  | ok p =>
    rw [bind_ok hs] at h
    exact hf p.1 (hr s p.1 p.2 hs) p.2 b s' h

/-- Where nothing has to be known of the first part. -/
theorem after (hf : ∀ a, Yields (f a) Q) : Yields (r >>= f) Q :=
  bind (P := fun _ => True) (fun _ _ _ _ => trivial) fun a _ => hf a

theorem pure (h : P a) : Yields (Pure.pure a) P := by
  intro s b s' hs
  cases hs
  exact h

theorem throw : Yields (MonadExcept.throw e : Reader α) P := by
  intro s a s' h
  cases h

theorem refuse {wanted : String} : Yields (Json.refuse wanted : Reader α) P := by
  unfold Json.refuse
  refine after fun c => ?_
  split
  · exact throw
  · exact after fun _ => after fun _ => throw
  · exact after fun _ => after fun _ => throw
  · exact after fun _ => after fun _ => throw
  · exact after fun _ => throw
  · exact throw
  · exact throw
  · split
    · exact after fun _ => throw
    · exact throw

theorem load {document : String} (hr : Yields r P) (h : Json.load r document = .ok a) : P a := by
  have hwhole : Yields (do let a ← r; finish; return a : Reader α) P :=
    hr.bind fun a ha => after fun _ => pure ha
  unfold Json.load at h
  cases hs : (do let a ← r; finish; return a : Reader α).run document.toList with
  | error e =>
    rw [hs] at h
    cases h
  | ok p =>
    rw [hs] at h
    cases h
    exact hwhole _ p.1 p.2 hs

/-- A value within the levels of its reader is loaded again from its own document. -/
theorem reload {levels : α → Nat} {document json : String} (hr : Yields r fun a => levels a ≤ maxLevels)
    (h : Json.load r document = .ok a) (hnests : Nests json.toList (levels a))
    (hreads : Reads r json.toList (levels a ≤ maxLevels) a) :
    nesting json ≤ 127 ∧ Json.load r json = .ok a := by
  have hle : levels a ≤ 127 := hr.load h
  rw [nesting_of_nests hnests]
  exact ⟨hle, hreads.load.trans (if_pos hle)⟩

end Yields

/-! ### Tagged values, pairs and records -/

section
variable {τ δ α : Type} {P : α → Prop} {wanted : String}

theorem Yields.tagged {all : List τ} {name : τ → String} {bare : τ → Reader α} {content : Option (τ → Reader α)}
    (hbare : ∀ t, Yields (bare t) P) (hcontent : ∀ read, content = some read → ∀ t, Yields (read t) P) :
    Yields (Json.tagged all name bare content) P := by
  unfold Json.tagged
  refine .after fun c => ?_
  split
  · exact .throw
  · exact .after hbare
  · cases content with
    | none => exact .throw
    | some read =>
      refine .after fun _ => .after fun c => ?_
      split
      · exact .throw
      · refine .after fun t => .after fun _ => (hcontent read rfl t).bind fun a ha => .after fun c => ?_
        split
        · exact .throw
        · exact .after fun _ => .pure ha
        · exact .throw
      · exact .throw
      · exact .throw
  · exact .throw

theorem Yields.pair {item : Option (Reader α)} (hitem : ∀ read, item = some read → Yields read P) :
    Yields (Json.pair wanted item) fun p => P p.1 ∧ P p.2 := by
  unfold Json.pair
  refine .after fun c => ?_
  split
  · cases item with
    | none => exact .throw
    | some read =>
      refine .after fun _ => .after fun more => ?_
      split
      · refine (hitem read rfl).bind fun a ha => .after fun more => ?_
        split
        · exact (hitem read rfl).bind fun b hb => .after fun _ => .pure ⟨ha, hb⟩
        · exact .throw
      · exact .throw
  · exact .refuse

/-- What holds of a draft all the while, and so of what is built from it. -/
structure Layout.Keeps (l : Layout δ α) (I : δ → Prop) (P : α → Prop) : Prop where
  blank : I l.blank
  read : ∀ f ∈ l.fields, ∀ d, I d → Yields (f.read d) I
  build : ∀ d a, I d → l.build d = .ok a → P a

namespace Layout

variable {l : Layout δ α} {I : δ → Prop}

theorem Keeps.members (h : l.Keeps I P) (n : Nat) : ∀ first d, I d → Yields (l.members n first d) I := by
  induction n with
  | zero => exact fun _ _ _ => .throw
  | succ n ih =>
    intro first d hd
    rw [Layout.members]
    refine .after fun more => ?_
    split
    · refine .after fun key => ?_
      split
      · next f hf =>
        split
        · exact .throw
        · exact .after fun _ => (h.read f (List.mem_of_find?_eq_some hf) d hd).bind fun d' hd' => ih false d' hd'
      · split
        · exact .after fun _ => .after fun _ => ih false d hd
        · exact .throw
    · exact .after fun _ => .pure hd

theorem Keeps.elements (h : l.Keeps I P) (fs : List (Field δ)) (hfs : ∀ f ∈ fs, f ∈ l.fields) :
    ∀ i d, I d → Yields (l.elements wanted fs i d) I := by
  induction fs with
  | nil => exact fun _ _ hd => .pure hd
  | cons f fs ih =>
    intro i d hd
    have hrest := ih fun g hg => hfs g (by simp [hg])
    rw [Layout.elements]
    refine .after fun more => ?_
    split
    · exact (h.read f (hfs f (by simp)) d hd).bind fun d' hd' => hrest (i + 1) d' hd'
    · split
      · exact hrest (i + 1) d hd
      · exact .throw

theorem Keeps.finished (h : l.Keeps I P) {d : δ} (hd : I d) : Yields (l.finished d) P := by
  unfold Layout.finished
  split
  · next a ha => exact .pure (h.build d a hd ha)
  · exact .throw

end Layout

theorem Yields.record {layout : Option (Layout δ α)} (h : ∀ l, layout = some l → ∃ I, l.Keeps I P) :
    Yields (Json.record wanted layout) P := by
  unfold Json.record
  refine .after fun c => ?_
  split
  · cases layout with
    | none => exact .throw
    | some l =>
      obtain ⟨I, hl⟩ := h l rfl
      refine .after fun _ => .after fun n => ?_
      exact (hl.members n true l.blank hl.blank).bind fun d hd => hl.finished hd
  · cases layout with
    | none => exact .throw
    | some l =>
      obtain ⟨I, hl⟩ := h l rfl
      refine .after fun _ => (hl.elements l.fields (fun _ hf => hf) 0 l.blank hl.blank).bind fun d hd => ?_
      exact (hl.finished hd).bind fun a ha => .after fun _ => .pure ha
  · exact .refuse

end

/-! ### Expressions and statements -/

theorem text_yields (n : Nat) : Yields Json.text fun _ => 0 ≤ n := fun _ _ _ _ => Nat.zero_le n

section
variable {n m : Nat}

theorem exprContent_yields {item : Option (Reader Expr)} (hm : 1 ≤ m)
    (hitem : ∀ read, item = some read → Yields read fun e => e.levels + 2 ≤ m) (k : Kind) :
    Yields (exprContent item k) fun e => e.levels ≤ m := by
  have hop : ∀ op, Yields (operation op item) fun e => e.levels ≤ m := by
    intro op
    refine (Yields.pair hitem).bind ?_
    rintro ⟨l, r⟩ ⟨hl, hr⟩
    refine .pure ?_
    simp only [Expr.levels] at hl hr ⊢
    omega
  cases k with
  | number => exact .after fun _ => .pure hm
  | boolean => exact .after fun _ => .pure hm
  | ident => exact .after fun _ => .pure hm
  | add => exact hop .add
  | multiply => exact hop .mul
  | lessThan => exact hop .lt

theorem exprLevel_yields {content : Option (Kind → Reader Expr)} {P : Expr → Prop}
    (h : ∀ read, content = some read → ∀ k, Yields (read k) P) : Yields (exprLevel content) P :=
  Yields.tagged (fun _ => Yields.throw) h

theorem expression_yields (n : Nat) : Yields (expression n) fun e => e.levels ≤ n := by
  match n with
  | 0 => exact exprLevel_yields fun _ h => nomatch h
  | 1 =>
    refine exprLevel_yields fun _ h => ?_
    cases h
    exact exprContent_yields (Nat.le_refl 1) fun _ h => nomatch h
  | n + 2 =>
    refine exprLevel_yields fun _ h => ?_
    cases h
    refine exprContent_yields (by omega) fun _ h => ?_
    cases h
    intro s e s' hs
    exact Nat.add_le_add_right (expression_yields n s e s' hs) 2

def Within {α : Type} (levels : α → Nat) (n : Nat) (part : Option α) : Prop := ∀ a, part = some a → levels a ≤ n

theorem within_none {α : Type} (levels : α → Nat) (n : Nat) : Within levels n none := by
  intro a h
  cases h

theorem within_some {α : Type} {levels : α → Nat} {a : α} (h : levels a ≤ n) : Within levels n (some a) := by
  intro b hb
  cases hb
  exact h

/-- Something is built only where the part that it needs is there. -/
theorem need_bind {α β : Type} {name : String} {part : Option α} {build : α → Except ReadError β} {b : β}
    (h : (do build (← need name part)) = .ok b) : ∃ a, part = some a ∧ build a = .ok b := by
  cases part with
  | none => cases h
  | some a => exact ⟨a, rfl, h⟩

theorem Within.need {α β : Type} {levels : α → Nat} {part : Option α} {name : String}
    {build : α → Except ReadError β} {b : β} (hpart : Within levels n part)
    (h : (do build (← Json.need name part)) = .ok b) : ∃ a, levels a ≤ n ∧ build a = .ok b := by
  obtain ⟨a, ha, hbuild⟩ := need_bind h
  exact ⟨a, hpart a ha, hbuild⟩

variable {expr : Reader Expr} {stmt : Reader Stmt}

section
variable (he : Yields expr fun e => e.levels ≤ n)
include he

theorem assignLayout_keeps : (assignLayout expr).Keeps (fun d => Within Expr.levels n d.value)
    fun s => s.levels ≤ n + 2 := by
  refine ⟨within_none _ _, ?_, ?_⟩
  · intro f hf d hd
    simp only [assignLayout, List.mem_cons, List.not_mem_nil, or_false] at hf
    rcases hf with rfl | rfl
    · exact .after fun _ => .pure hd
    · exact he.bind fun e hle => .pure (within_some hle)
  · intro d s hd h
    obtain ⟨x, -, h⟩ := need_bind h
    obtain ⟨e, hle, h⟩ := hd.need h
    cases h
    exact Nat.add_le_add_right hle 2

variable (hs : Yields stmt fun s => s.levels ≤ n)
include hs

theorem choiceLayout_keeps : (choiceLayout expr stmt).Keeps
    (fun d => Within Expr.levels n d.condition ∧ Within Stmt.levels n d.consequence ∧
      Within Stmt.levels n d.alternative) fun s => s.levels ≤ n + 2 := by
  refine ⟨⟨within_none _ _, within_none _ _, within_none _ _⟩, ?_, ?_⟩
  · intro f hf d hd
    simp only [choiceLayout, List.mem_cons, List.not_mem_nil, or_false] at hf
    rcases hf with rfl | rfl | rfl
    · exact he.bind fun c hc => .pure ⟨within_some hc, hd.2⟩
    · exact hs.bind fun t ht => .pure ⟨hd.1, within_some ht, hd.2.2⟩
    · exact hs.bind fun f hf => .pure ⟨hd.1, hd.2.1, within_some hf⟩
  · rintro d s ⟨hc, ht, hf⟩ h
    obtain ⟨c, hcn, h⟩ := hc.need h
    obtain ⟨t, htn, h⟩ := ht.need h
    obtain ⟨f, hfn, h⟩ := hf.need h
    cases h
    simp only [Stmt.levels]
    omega

theorem loopLayout_keeps : (loopLayout expr stmt).Keeps
    (fun d => Within Expr.levels n d.condition ∧ Within Stmt.levels n d.body) fun s => s.levels ≤ n + 2 := by
  refine ⟨⟨within_none _ _, within_none _ _⟩, ?_, ?_⟩
  · intro f hf d hd
    simp only [loopLayout, List.mem_cons, List.not_mem_nil, or_false] at hf
    rcases hf with rfl | rfl
    · exact he.bind fun c hc => .pure ⟨within_some hc, hd.2⟩
    · exact hs.bind fun t ht => .pure ⟨hd.1, within_some ht⟩
  · rintro d s ⟨hc, hb⟩ h
    obtain ⟨c, hcn, h⟩ := hc.need h
    obtain ⟨b, hbn, h⟩ := hb.need h
    cases h
    simp only [Stmt.levels]
    omega

end

theorem sequenceLayout_keeps (hs : Yields stmt fun s => s.levels ≤ n) : (sequenceLayout stmt).Keeps
    (fun d => Within Stmt.levels n d.first ∧ Within Stmt.levels n d.second) fun s => s.levels ≤ n + 2 := by
  refine ⟨⟨within_none _ _, within_none _ _⟩, ?_, ?_⟩
  · intro f hf d hd
    simp only [sequenceLayout, List.mem_cons, List.not_mem_nil, or_false] at hf
    rcases hf with rfl | rfl
    · exact hs.bind fun a ha => .pure ⟨within_some ha, hd.2⟩
    · exact hs.bind fun b hb => .pure ⟨hd.1, within_some hb⟩
  · rintro d s ⟨ha, hb⟩ h
    obtain ⟨a, han, h⟩ := ha.need h
    obtain ⟨b, hbn, h⟩ := hb.need h
    cases h
    simp only [Stmt.levels]
    omega

/-- The parts of a statement may have two levels less than the statement. -/
def Parts.Within (p : Parts) (m : Nat) : Prop :=
  ∃ n, n + 2 ≤ m ∧ Yields p.expr (fun e => e.levels ≤ n) ∧ Yields p.stmt fun s => s.levels ≤ n

theorem stmtContent_yields {parts : Option Parts} (hparts : ∀ p, parts = some p → p.Within m) (f : Form) :
    Yields (stmtContent parts f) fun s => s.levels ≤ m := by
  have hrecord : ∀ {δ : Type} {wanted : String} {layout : Parts → Layout δ Stmt}
      (_ : ∀ p n, Yields p.expr (fun e => e.levels ≤ n) → Yields p.stmt (fun s => s.levels ≤ n) →
        ∃ I, (layout p).Keeps I fun s => s.levels ≤ n + 2),
      Yields (Json.record wanted (parts.map layout)) fun s => s.levels ≤ m := by
    intro δ wanted layout hlayout
    refine .record fun l hl => ?_
    obtain ⟨p, hp, rfl⟩ := Option.map_eq_some_iff.1 hl
    obtain ⟨n, hn, he, hs⟩ := hparts p hp
    obtain ⟨I, hI⟩ := hlayout p n he hs
    exact ⟨I, hI.blank, hI.read, fun d a hd ha => Nat.le_trans (hI.build d a hd ha) hn⟩
  cases f with
  | doNothing => exact .after fun _ => .pure (Nat.zero_le m)
  | assign => exact hrecord fun p n he _ => ⟨_, assignLayout_keeps he⟩
  | choice => exact hrecord fun p n he hs => ⟨_, choiceLayout_keeps he hs⟩
  | sequence => exact hrecord fun p n _ hs => ⟨_, sequenceLayout_keeps hs⟩
  | loop => exact hrecord fun p n he hs => ⟨_, loopLayout_keeps he hs⟩

theorem stmtBare_yields (f : Form) : Yields (stmtBare f) fun s => s.levels ≤ m := by
  cases f with
  | doNothing => exact .pure (Nat.zero_le m)
  | assign => exact .throw
  | choice => exact .throw
  | sequence => exact .throw
  | loop => exact .throw

theorem stmtLevel_yields {content : Option (Form → Reader Stmt)}
    (h : ∀ read, content = some read → ∀ f, Yields (read f) fun s => s.levels ≤ m) :
    Yields (stmtLevel content) fun s => s.levels ≤ m :=
  Yields.tagged stmtBare_yields h

theorem statement_yields (n : Nat) : Yields (statement n) fun s => s.levels ≤ n := by
  match n with
  | 0 => exact stmtLevel_yields fun _ h => nomatch h
  | 1 =>
    refine stmtLevel_yields fun _ h => ?_
    cases h
    exact stmtContent_yields fun _ h => nomatch h
  | n + 2 =>
    refine stmtLevel_yields fun _ h => ?_
    cases h
    refine stmtContent_yields fun p h => ?_
    cases h
    exact ⟨n, Nat.le_refl _, expression_yields n, statement_yields n⟩

end

/-! ### Environments and programs -/

theorem bindings_yields {read : Reader Expr} {k : Nat} (hread : Yields read fun e => e.levels ≤ k) (n : Nat) :
    ∀ first env, (∀ b ∈ env.entries, b.2.levels ≤ k) →
      Yields (bindings read n first env) fun env => ∀ b ∈ env.entries, b.2.levels ≤ k := by
  induction n with
  | zero => exact fun _ _ _ => .throw
  | succ n ih =>
    intro first env henv
    rw [bindings]
    refine .after fun more => ?_
    split
    · refine .after fun x => .after fun _ => hread.bind fun e he => ih false (env.insert x e) ?_
      intro b hb
      rcases mem_insertSorted hb with rfl | hb
      · exact he
      · exact henv b hb
    · exact .after fun _ => .pure henv

theorem environment_yields (n : Nat) : Yields (environment n) fun env => env.levels ≤ n := by
  match n with
  | 0 =>
    refine .after fun c => ?_
    split
    · exact .throw
    · exact .refuse
  | n + 1 =>
    refine .after fun c => ?_
    split
    · refine .after fun _ => .after fun i => ?_
      intro s env s' h
      exact Env.levels_le_succ.2 (bindings_yields (expression_yields n) i true .empty (by simp [Dict.empty]) s env s' h)
    · exact .refuse

theorem program_yields (n : Nat) : Yields (program n) fun p => p.levels ≤ n := by
  match n with
  | 0 =>
    rw [program]
    exact .record fun _ h => nomatch h
  | n + 1 =>
    rw [program]
    refine .record fun l h => ?_
    cases h
    refine ⟨Within Stmt.levels n, within_none _ _, ?_, ?_⟩
    · intro f hf d _
      rw [List.mem_singleton.1 hf]
      exact (statement_yields n).bind fun s hs => .pure (within_some hs)
    · intro d p hd h
      obtain ⟨s, hle, h⟩ := hd.need h
      cases h
      exact Nat.add_le_add_right hle 1

end Json

open Json

/-- What was loaded can be saved and loaded again, from whatever text it came. -/
theorem accepted_documents_reload (document : String) :
    (∀ s, Stmt.load document = .ok s → nesting s.json ≤ 127 ∧ Stmt.load s.json = .ok s) ∧
    (∀ e, Expr.load document = .ok e → nesting e.json ≤ 127 ∧ Expr.load e.json = .ok e) ∧
    (∀ env, Env.load document = .ok env → nesting env.json ≤ 127 ∧ Env.load env.json = .ok env) ∧
    (∀ x, loadIdent document = .ok x → nesting (quote x) ≤ 127 ∧ loadIdent (quote x) = .ok x) ∧
    ∀ p, Program.load document = .ok p → nesting p.json ≤ 127 ∧ Program.load p.json = .ok p := by
  refine ⟨fun s h => ?_, fun e h => ?_, fun env h => ?_, fun x h => ?_, fun p h => ?_⟩
  · exact (statement_yields maxLevels).reload h s.nests_json (s.reads maxLevels)
  · exact (expression_yields maxLevels).reload h e.nests_json (e.reads maxLevels)
  · exact (environment_yields maxLevels).reload h env.nests_json (env.reads maxLevels)
  · exact (text_yields maxLevels).reload h (.quote x) (Reads.name x maxLevels)
  · exact (program_yields maxLevels).reload h p.nests_json (p.reads maxLevels)

/-- Spaces, a record as a list, a `null` that could be left out, a key given twice, an escape that is never written and
a key that no record has: none of these documents is the one that the value is written in. -/
theorem other_spellings_reload :
    let s : Stmt := .loop (.lit (.bool true)) .skip
    let env : Env := Dict.empty.insert "x" (.lit (.bool false))
    (Expr.load " \x7b\"Number\" : -7 \x7d" = .ok (.lit (.num (-7))) ∧
      Expr.load (Expr.lit (.num (-7))).json = .ok (.lit (.num (-7)))) ∧
    (Stmt.load "\x7b\"While\":[\x7b\"Boolean\":true\x7d, \x7b\"DoNothing\":null\x7d]\x7d\n" = .ok s ∧
      Stmt.load s.json = .ok s) ∧
    (Env.load "\x7b\"x\":\x7b\"Boolean\":true\x7d,\"x\":\x7b\"Boolean\":false\x7d\x7d" = .ok env ∧
      Env.load env.json = .ok env) ∧
    (loadIdent "\"a\\/b\"" = .ok "a/b" ∧ loadIdent (quote "a/b") = .ok "a/b") ∧
    Program.load "\x7b\"more\":[[\x7b\x7d]],\"statement\":\"DoNothing\"\x7d" = .ok ⟨.skip⟩ ∧
      Program.load (Program.mk .skip).json = .ok ⟨.skip⟩ := by
  intro s env
  have he : Expr.load " \x7b\"Number\" : -7 \x7d" = .ok (.lit (.num (-7))) := rfl
  have hs : Stmt.load "\x7b\"While\":[\x7b\"Boolean\":true\x7d, \x7b\"DoNothing\":null\x7d]\x7d\n" =
      .ok (.loop (.lit (.bool true)) .skip) := rfl
  have henv : Env.load "\x7b\"x\":\x7b\"Boolean\":true\x7d,\"x\":\x7b\"Boolean\":false\x7d\x7d" =
      .ok (Dict.empty.insert "x" (.lit (.bool false))) := rfl
  have hx : loadIdent "\"a\\/b\"" = .ok "a/b" := rfl
  have hp : Program.load "\x7b\"more\":[[\x7b\x7d]],\"statement\":\"DoNothing\"\x7d" = .ok ⟨.skip⟩ :=
    rfl
  exact ⟨⟨he, ((accepted_documents_reload _).2.1 _ he).2⟩,
    ⟨hs, ((accepted_documents_reload _).1 _ hs).2⟩,
    ⟨henv, ((accepted_documents_reload _).2.2.1 _ henv).2⟩,
    ⟨hx, ((accepted_documents_reload _).2.2.2.1 _ hx).2⟩,
    hp, ((accepted_documents_reload _).2.2.2.2 _ hp).2⟩

end WhileLang
