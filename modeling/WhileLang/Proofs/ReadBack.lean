import WhileLang.Proofs.Nesting

/-! Documents of values read back as these values. Reading stops at the first problem,
and the document of a value has only one: a bracket too many. So a reader answers
the document in one of two ways, and its nesting decides which. `Reads` says so of
one reader and one text, and goes through objects, lists and records. -/

namespace WhileLang

namespace Json

/-- With anything behind it, `text` is read as `a` and no further; or it nests too deep, unless `fits`. -/
structure Reads {α : Type} (r : Reader α) (text : List Char) (fits : Prop) (a : α) : Prop where
  ok : fits → ∀ rest, EndsNumber rest → r (text ++ rest) = .ok (a, rest)
  deep : ¬ fits → ∀ rest, EndsNumber rest → r (text ++ rest) = .error .tooDeep

theorem endsNumber_nil : EndsNumber [] := by
  intro c hc
  cases hc

theorem endsNumber_cons {c : Char} (h : isDigit c = false ∧ c ≠ '.' ∧ c ≠ 'e' ∧ c ≠ 'E') (s : List Char) :
    EndsNumber (c :: s) := by
  intro d hd
  cases hd
  exact h

namespace Reads

variable {α β : Type} {r : Reader α} {g : α → Reader β} {s t : List Char} {p q : Prop} {a : α} {b : β}

theorem congr (h : Reads r s p a) (hpq : p ↔ q) : Reads r s q a := by
  rwa [← propext hpq]

theorem of_ok (h : ∀ rest, EndsNumber rest → r (s ++ rest) = .ok (a, rest)) : Reads r s True a :=
  ⟨fun _ => h, fun hn => absurd trivial hn⟩

theorem of_deep (h : ∀ rest, r (s ++ rest) = .error .tooDeep) (a : α) : Reads r s False a :=
  ⟨fun hf => hf.elim, fun _ rest _ => h rest⟩

/-- A reader that goes on as another one does. -/
theorem of_eq {r' : Reader α} (h : Reads r t p a) (heq : ∀ rest, r' (s ++ rest) = r (t ++ rest)) : Reads r' s p a :=
  ⟨fun hp rest hrest => (heq rest).trans (h.ok hp rest hrest),
    fun hn rest hrest => (heq rest).trans (h.deep hn rest hrest)⟩

/-- The first problem is the error, so a text of two parts fits when both do. -/
theorem andThen (hr : Reads r s p a) (hg : Reads (g a) t q b) (hends : ∀ rest, EndsNumber (t ++ rest)) :
    Reads (r >>= g) (s ++ t) (p ∧ q) b := by
  constructor
  · rintro ⟨hp, hq⟩ rest hrest
    rw [List.append_assoc, bind_ok (hr.ok hp _ (hends rest)), hg.ok hq rest hrest]
  · intro hn rest hrest
    rw [List.append_assoc]
    by_cases hp : p
    · rw [bind_ok (hr.ok hp _ (hends rest)), hg.deep (fun hq => hn ⟨hp, hq⟩) rest hrest]
    · rw [bind_error (hr.deep hp _ (hends rest))]

theorem map (hr : Reads r s p a) (f : α → β) : Reads (do return f (← r)) s p (f a) := by
  constructor
  · intro hp rest hrest
    rw [bind_ok (hr.ok hp rest hrest)]
    rfl
  · intro hn rest hrest
    rw [bind_error (hr.deep hn rest hrest)]

theorem text (x : String) : Reads Json.text (quote x).toList True x := by
  refine of_ok fun rest _ => ?_
  have h := string_quote x rest
  rw [quote_toList] at h ⊢
  exact h

/-- A name opens no level. -/
theorem name (x : String) (n : Nat) : Reads Json.text (quote x).toList (0 ≤ n) x :=
  (text x).congr (iff_of_true trivial (Nat.zero_le n))

/-- A whole document, behind which there is nothing. -/
theorem load {document : String} [Decidable p] (h : Reads r document.toList p a) :
    Json.load r document = if p then .ok a else .error .tooDeep := by
  have hwhole : ∀ {o : Except ReadError (α × List Char)},
      (do let a ← r; finish; return a : Reader α) (document.toList ++ []) = o →
        Json.load r document = o.map Prod.fst := by
    rintro o rfl
    rw [List.append_nil]
    rfl
  split
  · next hp =>
    refine hwhole (o := .ok (a, [])) ?_
    rw [bind_ok (h.ok hp [] endsNumber_nil)]
    rfl
  · next hp => exact hwhole (bind_error (h.deep hp [] endsNumber_nil))

/-- Where the levels are those that the brackets of the document show. -/
theorem document {document : String} {k : Nat} (h : Reads r document.toList (k ≤ maxLevels) a)
    (hnests : Nests document.toList k) :
    Json.load r document = if nesting document ≤ 127 then .ok a else .error .tooDeep := by
  rw [nesting_of_nests hnests]
  exact h.load

end Reads

theorem load_error {α : Type} {r : Reader α} {document : String} {e : ReadError} (h : r document.toList = .error e) :
    load r document = .error e := by
  have hload : (do let a ← r; finish; return a : Reader α) document.toList = .error e := bind_error h
  rw [load, StateT.run, hload]
  rfl

/-! ### Tagged values -/

section
variable {τ α : Type} {all : List τ} {name : τ → String} {bare : τ → Reader α} {read : τ → Reader α} {t : τ}
  {body x v : String} {fits : Prop} {a : α}

theorem peek_quote (x : String) (s : List Char) :
    peek ((quote x).toList ++ s) = .ok (some '"', (quote x).toList ++ s) := by
  rw [quote_toList]
  exact peek_cons rfl _

theorem tag_quote (hfind : all.find? (fun u => name u == name t) = some t) (s : List Char) :
    tag all name ((quote (name t)).toList ++ s) = .ok (t, s) := by
  rw [tag, bind_ok (string_quote _ s)]
  simp only [hfind]
  rfl

theorem colon_cons (s : List Char) : colon (':' :: s) = .ok ((), s) := rfl

theorem object_one_append (x v : String) (rest : List Char) :
    (object [(x, v)]).toList ++ rest = '\x7b' :: ((quote x).toList ++ ':' :: (v.toList ++ '\x7d' :: rest)) := by
  simp [object_toList, membersText, tailText, memberText]

theorem object_one_toList (x v : String) :
    (object [(x, v)]).toList = '\x7b' :: ((quote x).toList ++ ':' :: (v.toList ++ ['\x7d'])) := by
  rw [← object_one_append, List.append_nil]

def tagEnd (a : α) : Reader α := do
  match ← peek with
  | none => throw (.ended .object)
  | some '\x7d' => do
    advance
    return a
  | some _ => throw .expectedValue

/-- Behind its name, a tagged value is its content. -/
theorem tagged_name (hfind : all.find? (fun u => name u == name t) = some t) (s : List Char) :
    tagged all name bare (some read) ('\x7b' :: ((quote (name t)).toList ++ ':' :: s)) = (read t >>= tagEnd) s := by
  rw [tagged, bind_ok (peek_cons rfl _)]
  change (advance >>= _) _ = _
  rw [bind_ok rfl, List.tail_cons, bind_ok (peek_quote _ _)]
  change (tag all name >>= _) _ = _
  rw [bind_ok (tag_quote hfind _), bind_ok (colon_cons s)]
  rfl

theorem Reads.tagged (hfind : all.find? (fun u => name u == name t) = some t)
    (h : Reads (read t) body.toList fits a) :
    Reads (tagged all name bare (some read)) (object [(name t, body)]).toList fits a := by
  have hbrace : ∀ rest, EndsNumber ('\x7d' :: rest) := endsNumber_cons (by decide)
  constructor
  · intro hf rest _
    rw [object_one_append, tagged_name hfind, bind_ok (h.ok hf _ (hbrace rest))]
    rfl
  · intro hn rest _
    rw [object_one_append, tagged_name hfind, bind_error (h.deep hn _ (hbrace rest))]

theorem Reads.tagged_none (ms : List (String × String)) (a : α) :
    Reads (Json.tagged all name bare none) (object ms).toList False a := by
  refine .of_deep (fun rest => ?_) a
  rw [object_toList]
  rfl

end

/-! ### Records -/

section
variable {δ α : Type} {l : Layout δ α} {d d' : δ} {ms : List (String × String)} {n : Nat} {fits : Prop} {a : α}
  {first : Bool} {x : String} {s : List Char}

/-- The members of an object fill a draft, one field after the other. -/
inductive Layout.Fills (l : Layout δ α) : δ → List (String × String) → Prop → δ → Prop where
  | done {d : δ} : Fills l d [] True d
  | field {x v : String} {f : Field δ} {d d₁ d₂ : δ} {ms : List (String × String)} {p q : Prop} :
    l.field? x = some f → f.filled d = false → Reads (f.read d) v.toList p d₁ → Fills l d₁ ms q d₂ →
    Fills l d ((x, v) :: ms) (p ∧ q) d₂

theorem endsNumber_tailText (ms : List (String × String)) (rest : List Char) :
    EndsNumber (tailText ms ++ ['\x7d'] ++ rest) := by
  cases ms with
  | nil => exact endsNumber_cons (by decide) _
  | cons m ms => exact endsNumber_cons (by decide) _

theorem nextKey_quote (x : String) (s : List Char) :
    nextKey true ((quote x).toList ++ s) = .ok (true, (quote x).toList ++ s) := by
  rw [nextKey, bind_ok (peek_quote x s)]
  rfl

theorem nextKey_comma (x : String) (s : List Char) :
    nextKey false (',' :: ((quote x).toList ++ s)) = .ok (true, (quote x).toList ++ s) := by
  have h := peek_quote x s
  rw [nextKey, bind_ok (peek_cons rfl _)]
  change (advance >>= _) _ = _
  rw [bind_ok rfl, List.tail_cons, bind_ok h]
  rfl

/-- Behind its key, a member is the value of its field. -/
theorem Layout.members_key {f : Field δ} (hkey : nextKey first s = .ok (true, (quote x).toList ++ ':' :: rest))
    (hf : l.field? x = some f) (hd : f.filled d = false) :
    l.members (n + 1) first d s = (f.read d >>= l.members n false) rest := by
  rw [Layout.members, bind_ok hkey]
  change (Json.string >>= _) _ = _
  rw [bind_ok (string_quote x _)]
  simp only [hf, hd]
  rfl

theorem Layout.Fills.tail (h : l.Fills d ms fits d') (hn : ms.length < n) :
    Reads (l.members n false d) (tailText ms ++ ['\x7d']) fits d' := by
  induction h generalizing n with
  | done =>
    obtain ⟨n, rfl⟩ : ∃ k, n = k + 1 := ⟨n - 1, by omega⟩
    exact .of_ok fun rest _ => rfl
  | @field x v f d d₁ d₂ ms p q hf hd hv _ ih =>
    obtain ⟨n, rfl⟩ : ∃ k, n = k + 1 := ⟨n - 1, by omega⟩
    refine (hv.andThen (ih (Nat.lt_of_succ_lt_succ hn)) (endsNumber_tailText ms)).of_eq fun rest => ?_
    refine Layout.members_key (x := x) ?_ hf hd
    simp only [tailText, memberText, List.cons_append, List.append_assoc]
    exact nextKey_comma x _

theorem Layout.Fills.members (h : l.Fills d ms fits d') (hn : ms.length < n) :
    Reads (l.members n true d) (membersText ms ++ ['\x7d']) fits d' := by
  cases h with
  | done =>
    obtain ⟨n, rfl⟩ : ∃ k, n = k + 1 := ⟨n - 1, by omega⟩
    exact .of_ok fun rest _ => rfl
  | @field x v f d d₁ d₂ ms p q hf hd hv hms =>
    obtain ⟨n, rfl⟩ : ∃ k, n = k + 1 := ⟨n - 1, by omega⟩
    refine (hv.andThen (hms.tail (Nat.lt_of_succ_lt_succ hn)) (endsNumber_tailText ms)).of_eq fun rest => ?_
    refine Layout.members_key (x := x) ?_ hf hd
    simp only [membersText, memberText, List.cons_append, List.append_assoc]
    exact nextKey_quote x _

theorem length_membersText (ms : List (String × String)) : ms.length ≤ (membersText ms).length := by
  have htail : ∀ ms : List (String × String), ms.length ≤ (tailText ms).length := by
    intro ms
    induction ms with
    | nil => exact Nat.le_refl 0
    | cons m ms ih =>
      simp only [tailText, List.length_cons, List.length_append]
      omega
  cases ms with
  | nil => exact Nat.le_refl 0
  | cons m ms =>
    have := htail ms
    simp only [membersText, memberText, List.length_cons, List.length_append]
    omega

theorem Reads.record {wanted : String} (h : l.Fills l.blank ms fits d) (hbuild : l.build d = .ok a) :
    Reads (record wanted (some l)) (object ms).toList fits a := by
  have hopen : ∀ rest, Json.record wanted (some l) ((object ms).toList ++ rest) =
      (l.members (membersText ms ++ ['\x7d'] ++ rest).length true l.blank >>= l.finished)
        (membersText ms ++ ['\x7d'] ++ rest) := by
    intro rest
    rw [object_toList]
    rfl
  have hn : ∀ rest, ms.length < (membersText ms ++ ['\x7d'] ++ rest).length := by
    intro rest
    have := length_membersText ms
    simp only [List.length_append, List.length_singleton]
    omega
  constructor
  · intro hf rest hrest
    rw [hopen, bind_ok ((h.members (hn rest)).ok hf rest hrest), Layout.finished, hbuild]
    rfl
  · intro hf rest hrest
    rw [hopen, bind_error ((h.members (hn rest)).deep hf rest hrest)]

theorem Reads.record_none (δ : Type) {wanted : String} (ms : List (String × String)) (a : α) :
    Reads (Json.record wanted (none : Option (Layout δ α))) (object ms).toList False a := by
  refine .of_deep (fun rest => ?_) a
  rw [object_toList]
  rfl

end

/-! ### Expressions -/

section
variable {n : Nat} {a b e : Expr} {v w : String} {p q : Prop}

theorem Kind.find_name (k : Kind) : Kind.all.find? (fun u => u.name == k.name) = some k := by
  cases k <;> rfl

theorem Form.find_name (f : Form) : Form.all.find? (fun u => u.name == f.name) = some f := by
  cases f <;> rfl

theorem nextElement_first {c : Char} (hc : isBlank c = false) (hend : c ≠ ']') (s : List Char) :
    nextElement true (c :: s) = .ok (true, c :: s) := by
  rw [nextElement, bind_ok (peek_cons hc s)]
  refine congrFun (?_ : _ = (return true : Reader Bool)) _
  split
  · next h => cases h
  · next h => exact absurd (Option.some.inj h) hend
  · rfl

theorem nextElement_comma {c : Char} (hc : isBlank c = false) (hend : c ≠ ']') (s : List Char) :
    nextElement false (',' :: c :: s) = .ok (true, c :: s) := by
  rw [nextElement, bind_ok (peek_cons rfl _)]
  change (advance >>= _) _ = _
  rw [bind_ok rfl, List.tail_cons, bind_ok (peek_cons hc s)]
  refine congrFun (?_ : _ = (return true : Reader Bool)) _
  split
  · next h => cases h
  · next h => exact absurd (Option.some.inj h) hend
  · rfl

def pairEnd {α : Type} (wanted : String) (read : Reader α) (a : α) : Reader (α × α) := do
  if ← nextElement false then
    let b ← read
    closeList
    return (a, b)
  else throw (.tooShort 1 wanted 2)

section
variable {α : Type} {read : Reader α} {a b : α} (hb : Reads read w.toList q b)
  (hw : ∃ s, w.toList = '\x7b' :: s)
include hb hw

theorem Reads.pairEnd (wanted : String) (a : α) :
    Reads (Json.pairEnd wanted read a) (',' :: (w.toList ++ [']'])) q (a, b) := by
  obtain ⟨s, hs⟩ := hw
  have hend : ∀ rest, EndsNumber (']' :: rest) := endsNumber_cons (by decide)
  have hcomma : ∀ rest, nextElement false (',' :: (w.toList ++ [']']) ++ rest) =
      .ok (true, w.toList ++ ']' :: rest) := by
    intro rest
    rw [hs]
    simpa using nextElement_comma rfl (by decide) (s ++ ']' :: rest)
  constructor
  · intro hq rest _
    rw [Json.pairEnd, bind_ok (hcomma rest)]
    change (read >>= _) _ = _
    rw [bind_ok (hb.ok hq _ (hend rest))]
    rfl
  · intro hn rest _
    rw [Json.pairEnd, bind_ok (hcomma rest)]
    exact bind_error (hb.deep hn _ (hend rest))

theorem Reads.pair {wanted : String} (ha : Reads read v.toList p a) (hv : ∃ s, v.toList = '\x7b' :: s) :
    Reads (pair wanted (some read)) (list [v, w]).toList (p ∧ q) (a, b) := by
  obtain ⟨s, hs⟩ := hv
  have hends : ∀ rest, EndsNumber (',' :: (w.toList ++ [']']) ++ rest) := fun rest => endsNumber_cons (by decide) _
  refine (ha.andThen (Reads.pairEnd hb hw wanted a) hends).of_eq fun rest => ?_
  rw [list_pair_toList, Json.pair, List.cons_append, bind_ok (peek_cons rfl _)]
  change (advance >>= _) _ = _
  have hfirst := nextElement_first (c := '\x7b') rfl (by decide) (s ++ ',' :: (w.toList ++ ']' :: rest))
  rw [bind_ok rfl, List.tail_cons, hs]
  simp only [List.append_assoc, List.cons_append, List.nil_append]
  rw [bind_ok hfirst]
  rfl

end

theorem Reads.pair_none {α : Type} {wanted : String} (v w : String) (a : α × α) :
    Reads (Json.pair wanted (none : Option (Reader α))) (list [v, w]).toList False a := by
  refine .of_deep (fun rest => ?_) a
  rw [list_pair_toList]
  rfl

theorem object_starts (ms : List (String × String)) : ∃ s, (object ms).toList = '\x7b' :: s :=
  ⟨_, object_toList ms⟩

/-- A value without parts takes one level. -/
theorem Reads.leaf {k : Kind} (h : ∀ item, Reads (exprContent item k) v.toList True e) :
    ∀ n, Reads (expression n) (object [(k.name, v)]).toList (1 ≤ n) e
  | 0 => (Reads.tagged_none _ e).congr (iff_of_false id (by omega))
  | 1 => (Reads.tagged (Kind.find_name k) (h _)).congr (iff_of_true trivial (by omega))
  | n + 2 => (Reads.tagged (Kind.find_name k) (h _)).congr (iff_of_true trivial (by omega))

theorem Reads.operation {op : Op} {item : Option (Reader Expr)}
    (h : Reads (Json.pair ("tuple variant Expression::" ++ op.kind.name) item) v.toList p (a, b)) :
    Reads (exprContent item op.kind) v.toList p (.binary op a b) := by
  cases op <;> exact h.map fun q => Expr.binary _ q.1 q.2

end

end Json

open Json

theorem Value.reads (v : Value) (item : Option (Reader Expr)) :
    Reads (exprContent item v.kind) v.text.toList True (.lit v) := by
  cases v with
  | num k => exact (Reads.of_ok fun rest hrest => int64_text k hrest).map fun k => Expr.lit (.num k)
  | bool b => exact (Reads.of_ok fun rest _ => boolean_text b rest).map fun b => Expr.lit (.bool b)

theorem Expr.json_starts (e : Expr) : ∃ s, e.json.toList = '\x7b' :: s := by
  cases e <;> exact object_starts _

/-- The document of an expression is read back where as many levels may be opened as it has. -/
theorem Expr.reads (e : Expr) (n : Nat) : Reads (expression n) e.json.toList (e.levels ≤ n) e := by
  induction e generalizing n with
  | lit v => exact Reads.leaf v.reads n
  | var x => exact Reads.leaf (k := .ident) (fun _ => (Reads.text x).map Expr.var) n
  | binary op l r ihl ihr =>
    have hfind := Kind.find_name op.kind
    match n with
    | 0 => exact (Reads.tagged_none _ _).congr (iff_of_false id (by simp [Expr.levels]))
    | 1 =>
      exact (Reads.tagged hfind (.operation (.pair_none _ _ (l, r)))).congr (iff_of_false id (by simp [Expr.levels]))
    | n + 2 =>
      refine (Reads.tagged hfind (.operation (.pair (ihr n) r.json_starts (ihl n) l.json_starts))).congr ?_
      simp only [Expr.levels]
      omega

/-! ### Statements -/

section
variable {v : String} {k n : Nat} {s : Stmt} {f : Form}

theorem Json.Reads.stmtContent_none (hf : f ≠ .doNothing) (ms : List (String × String)) (s : Stmt) :
    Reads (stmtContent none f) (object ms).toList False s := by
  cases f with
  | doNothing => exact absurd rfl hf
  | assign => exact .record_none AssignDraft ms s
  | choice => exact .record_none ChoiceDraft ms s
  | sequence => exact .record_none SequenceDraft ms s
  | loop => exact .record_none LoopDraft ms s

/-- A record takes two levels, one for the name of its form and one for itself. -/
theorem Json.Reads.stmtRecord {ms : List (String × String)} (hf : f ≠ .doNothing)
    (h : ∀ n, Reads (stmtContent (some ⟨expression n, statement n⟩) f) (object ms).toList (k ≤ n) s) :
    ∀ n, Reads (statement n) (object [(f.name, object ms)]).toList (k + 2 ≤ n) s
  | 0 => (Reads.tagged_none _ s).congr (iff_of_false id (by omega))
  | 1 => (Reads.tagged (Form.find_name f) (.stmtContent_none hf ms s)).congr (iff_of_false id (by omega))
  | n + 2 => (Reads.tagged (Form.find_name f) (h n)).congr (by omega)

theorem Stmt.reads_skip (n : Nat) : Reads (statement n) Stmt.skip.json.toList True .skip := by
  have htag : ∀ content rest, stmtLevel content (Stmt.skip.json.toList ++ rest) = .ok (.skip, rest) := by
    intro content rest
    rw [Stmt.json, stmtLevel, Json.tagged.eq_def, bind_ok (peek_quote _ rest)]
    change (tag Form.all Form.name >>= _) _ = _
    rw [bind_ok (tag_quote (Form.find_name .doNothing) rest)]
    rfl
  match n with
  | 0 => exact .of_ok fun rest _ => htag _ rest
  | 1 => exact .of_ok fun rest _ => htag _ rest
  | n + 2 => exact .of_ok fun rest _ => htag _ rest

theorem Stmt.reads (s : Stmt) (n : Nat) : Reads (statement n) s.json.toList (s.levels ≤ n) s := by
  induction s generalizing n with
  | skip => exact (reads_skip n).congr (iff_of_true trivial (Nat.zero_le n))
  | assign x e =>
    have hfills : ∀ n, (assignLayout (expression n)).Fills ⟨none, none⟩
        [("variable", quote x), ("expression", e.json)] (True ∧ e.levels ≤ n ∧ True) ⟨some x, some e⟩ :=
      fun n => .field rfl rfl ((Reads.text x).map _) (.field rfl rfl ((e.reads n).map _) .done)
    exact Reads.stmtRecord (f := .assign) (by decide)
      (fun n => (Reads.record (hfills n) rfl).congr (by simp)) n
  | ite c t f iht ihf =>
    have hfills : ∀ n, (choiceLayout (expression n) (statement n)).Fills ⟨none, none, none⟩
        [("condition", c.json), ("consequence", t.json), ("alternative", f.json)]
        (c.levels ≤ n ∧ t.levels ≤ n ∧ f.levels ≤ n ∧ True) ⟨some c, some t, some f⟩ :=
      fun n => .field rfl rfl ((c.reads n).map _) (.field rfl rfl ((iht n).map _)
        (.field rfl rfl ((ihf n).map _) .done))
    exact Reads.stmtRecord (f := .choice) (by decide)
      (fun n => (Reads.record (hfills n) rfl).congr (by simp only [and_true]; omega)) n
  | seq a b iha ihb =>
    have hfills : ∀ n, (sequenceLayout (statement n)).Fills ⟨none, none⟩ [("first", a.json), ("second", b.json)]
        (a.levels ≤ n ∧ b.levels ≤ n ∧ True) ⟨some a, some b⟩ :=
      fun n => .field rfl rfl ((iha n).map _) (.field rfl rfl ((ihb n).map _) .done)
    exact Reads.stmtRecord (f := .sequence) (by decide)
      (fun n => (Reads.record (hfills n) rfl).congr (by simp only [and_true]; omega)) n
  | loop c body ih =>
    have hfills : ∀ n, (loopLayout (expression n) (statement n)).Fills ⟨none, none⟩
        [("condition", c.json), ("body", body.json)] (c.levels ≤ n ∧ body.levels ≤ n ∧ True) ⟨some c, some body⟩ :=
      fun n => .field rfl rfl ((c.reads n).map _) (.field rfl rfl ((ih n).map _) .done)
    exact Reads.stmtRecord (f := .loop) (by decide)
      (fun n => (Reads.record (hfills n) rfl).congr (by simp only [and_true]; omega)) n

end

/-! ### Environments, programs and names -/

section
variable {env : Env} {x : String} {s : List Char} {first : Bool} {k n : Nat}

/-- Behind its key, a binding is its expression. -/
theorem Json.Reads.binding {e : Expr} {env' : Env} {t : List Char} {q : Prop}
    (hkey : ∀ rest, nextKey first (s ++ rest) = .ok (true, (quote x).toList ++ ':' :: (e.json.toList ++ t ++ rest)))
    (hends : ∀ rest, EndsNumber (t ++ rest)) (h : Reads (bindings (expression k) n false (env.insert x e)) t q env') :
    Reads (bindings (expression k) (n + 1) first env) s (e.levels ≤ k ∧ q) env' := by
  have hboth := (e.reads k).andThen (g := fun e => bindings (expression k) n false (env.insert x e)) h hends
  refine hboth.of_eq fun rest => ?_
  rw [bindings, bind_ok (hkey rest)]
  change (Json.string >>= _) _ = _
  rw [bind_ok (string_quote x _), bind_ok (colon_cons _)]

def Json.bindingTexts (l : List (String × Expr)) : List (String × String) := l.map fun b => (b.1, b.2.json)

theorem Json.Reads.bindings_tail (l : List (String × Expr)) (env : Env) (hn : l.length < n) :
    Reads (bindings (expression k) n false env) (tailText (bindingTexts l) ++ ['\x7d'])
      (∀ b ∈ l, b.2.levels ≤ k) (l.foldl (fun d p => d.insert p.1 p.2) env) := by
  induction l generalizing n env with
  | nil =>
    obtain ⟨n, rfl⟩ : ∃ i, n = i + 1 := ⟨n - 1, by omega⟩
    exact (Reads.of_ok fun rest _ => rfl).congr (iff_of_true trivial (by simp))
  | cons b l ih =>
    obtain ⟨n, rfl⟩ : ∃ i, n = i + 1 := ⟨n - 1, by omega⟩
    have hl := ih (env.insert b.1 b.2) (Nat.lt_of_succ_lt_succ hn)
    refine (Reads.binding (fun rest => ?_) (endsNumber_tailText _) hl).congr (by simp)
    simpa [bindingTexts, tailText, memberText] using nextKey_comma b.1 _

theorem Json.Reads.bindings (l : List (String × Expr)) (env : Env) (hn : l.length < n) :
    Reads (bindings (expression k) n true env) (membersText (bindingTexts l) ++ ['\x7d'])
      (∀ b ∈ l, b.2.levels ≤ k) (l.foldl (fun d p => d.insert p.1 p.2) env) := by
  obtain ⟨n, rfl⟩ : ∃ i, n = i + 1 := ⟨n - 1, by omega⟩
  cases l with
  | nil => exact (Reads.of_ok fun rest _ => rfl).congr (iff_of_true trivial (by simp))
  | cons b l =>
    have hl := Reads.bindings_tail (k := k) l (env.insert b.1 b.2) (Nat.lt_of_succ_lt_succ hn)
    refine (Reads.binding (fun rest => ?_) (endsNumber_tailText _) hl).congr (by simp)
    simpa [bindingTexts, membersText, memberText] using nextKey_quote b.1 _

end

theorem Env.levels_le_succ {env : Env} {n : Nat} : env.levels ≤ n + 1 ↔ ∀ b ∈ env.entries, b.2.levels ≤ n := by
  rw [Env.levels, Nat.add_le_add_iff_right]
  induction env.entries with
  | nil => simp
  | cons b l ih => rw [List.map_cons, List.foldr_cons, Nat.max_le, ih, List.forall_mem_cons]

theorem Env.reads (env : Env) (n : Nat) : Json.Reads (environment n) env.json.toList (env.levels ≤ n) env := by
  have hjson : env.json.toList = '\x7b' :: (membersText (bindingTexts env.entries) ++ ['\x7d']) := object_toList _
  rw [hjson]
  match n with
  | 0 => exact (Reads.of_deep (fun rest => rfl) env).congr (iff_of_false id (by simp [Env.levels]))
  | n + 1 =>
    have hopen : ∀ rest, environment (n + 1) ('\x7b' :: (membersText (bindingTexts env.entries) ++ ['\x7d']) ++ rest) =
        bindings (expression n) (membersText (bindingTexts env.entries) ++ ['\x7d'] ++ rest).length true .empty
          (membersText (bindingTexts env.entries) ++ ['\x7d'] ++ rest) := fun rest => rfl
    have hlen : ∀ rest, env.entries.length <
        (membersText (bindingTexts env.entries) ++ ['\x7d'] ++ rest).length := by
      intro rest
      have := length_membersText (bindingTexts env.entries)
      simp only [bindingTexts, List.length_map, List.length_append, List.length_singleton] at this ⊢
      omega
    have hreads := fun rest => Reads.bindings (k := n) env.entries .empty (hlen rest)
    have hsame : env.entries.foldl (fun d p => d.insert p.1 p.2) .empty = env := Dict.ofList_entries env
    rw [hsame] at hreads
    constructor
    · intro hk rest hrest
      rw [hopen, (hreads rest).ok (Env.levels_le_succ.1 hk) rest hrest]
    · intro hk rest hrest
      rw [hopen, (hreads rest).deep (fun h => hk (Env.levels_le_succ.2 h)) rest hrest]

theorem Program.reads (p : Program) (n : Nat) : Reads (program n) p.json.toList (p.levels ≤ n) p := by
  match n with
  | 0 => exact (Reads.record_none (Option Stmt) _ p).congr (iff_of_false id (by simp [Program.levels]))
  | n + 1 =>
    have hfills : (programLayout (Json.statement n)).Fills none [("statement", p.statement.json)]
        (p.statement.levels ≤ n ∧ True) (some p.statement) :=
      .field rfl rfl ((p.statement.reads n).map _) .done
    exact (Reads.record hfills rfl).congr (by rw [and_true, Program.levels, Nat.add_le_add_iff_right])

/-- Every document of a value is read back as the value, or nests too deep. -/
theorem documents_read_back :
    (∀ s : Stmt, Stmt.load s.json = if nesting s.json ≤ 127 then .ok s else .error .tooDeep) ∧
    (∀ e : Expr, Expr.load e.json = if nesting e.json ≤ 127 then .ok e else .error .tooDeep) ∧
    (∀ env : Env, Env.load env.json = if nesting env.json ≤ 127 then .ok env else .error .tooDeep) ∧
    (∀ x : Ident, loadIdent (quote x) = if nesting (quote x) ≤ 127 then .ok x else .error .tooDeep) ∧
    (∀ p : Program, Program.load p.json = if nesting p.json ≤ 127 then .ok p else .error .tooDeep) ∧
    ReadError.tooDeep.category = .malformed ∧ ReadError.tooDeep.detail = "recursion limit exceeded" := by
  refine ⟨fun s => ?_, fun e => ?_, fun env => ?_, fun x => ?_, fun p => ?_, rfl, rfl⟩
  · exact (s.reads maxLevels).document s.nests_json
  · exact (e.reads maxLevels).document e.nests_json
  · exact (env.reads maxLevels).document env.nests_json
  · exact (Reads.name x maxLevels).document (.quote x)
  · exact (p.reads maxLevels).document p.nests_json

end WhileLang
