import WhileLang.Proofs.Records

/-! A program has many documents. Blanks may stand between the tokens, the fields of a
record may come in any order and among others, a record may be a list, and a string may
be spelled with any escapes. `Stmt.Spelled` gives all of these documents of a statement, with
the number of brackets that each has open at once; they all load as the statement. -/

namespace WhileLang

open Json

inductive Expr.Spelled : Expr → List Char → Nat → Prop where
  | lit {v : Value} {t : List Char} : TaggedText v.kind.name v.text.toList t → Spelled (.lit v) t 1
  | var {x : Ident} {u t : List Char} : StringSpelled x u → TaggedText "Variable" u t → Spelled (.var x) t 1
  | binary {op : Op} {l r : Expr} {u v body t : List Char} {j k : Nat} : Spelled l u j → Spelled r v k →
    ListText [u, v] body → TaggedText op.kind.name body t → Spelled (.binary op l r) t (max j k + 2)

/-- The spellings of a statement, with how many brackets are open at once, those in added fields aside. -/
inductive Stmt.Spelled : Stmt → List Char → Nat → Prop where
  | bare {t : List Char} : StringSpelled "DoNothing" t → Spelled .skip t 0
  | null {t : List Char} : TaggedText "DoNothing" ['n', 'u', 'l', 'l'] t → Spelled .skip t 1
  | assign {x : Ident} {e : Expr} {u v body t : List Char} {k : Nat} : StringSpelled x u → e.Spelled v k →
    RecordText [("variable", u), ("expression", v)] body → TaggedText "Assign" body t → Spelled (.assign x e) t (k + 2)
  | ite {c : Expr} {a b : Stmt} {u v w body t : List Char} {i j k : Nat} : c.Spelled u i → Spelled a v j →
    Spelled b w k → RecordText [("condition", u), ("consequence", v), ("alternative", w)] body →
    TaggedText "If" body t → Spelled (.ite c a b) t (max i (max j k) + 2)
  | seq {a b : Stmt} {u v body t : List Char} {j k : Nat} : Spelled a u j → Spelled b v k →
    RecordText [("first", u), ("second", v)] body → TaggedText "Sequence" body t → Spelled (.seq a b) t (max j k + 2)
  | loop {c : Expr} {a : Stmt} {u v body t : List Char} {j k : Nat} : c.Spelled u j → Spelled a v k →
    RecordText [("condition", u), ("body", v)] body → TaggedText "While" body t → Spelled (.loop c a) t (max j k + 2)

namespace Json

/-! ### Expressions -/

section
variable {k : Kind} {e : Expr} {v t : List Char} {n : Nat}

theorem int64_accepts (n : Int64) : Accepts int64 (Value.num n).text.toList n :=
  .of_peek fun _ hrest => int64_text n hrest

theorem boolean_accepts (b : Bool) : Accepts boolean (Value.bool b).text.toList b :=
  .of_peek fun rest _ => boolean_text b rest

theorem value_accepts (v : Value) (item : Option (Reader Expr)) :
    Accepts (exprContent item v.kind) v.text.toList (.lit v) := by
  cases v with
  | num n => exact (int64_accepts n).map fun n => Expr.lit (.num n)
  | bool b => exact (boolean_accepts b).map fun b => Expr.lit (.bool b)

/-- A value without parts takes one level. -/
theorem leaf_accepts (h : ∀ item, Accepts (exprContent item k) v e) (ht : TaggedText k.name v t) :
    ∀ {n : Nat}, 1 ≤ n → Accepts (expression n) t e
  | 1, _ => Accepts.tagged (Kind.find_name k) (h _) ht
  | _ + 2, _ => Accepts.tagged (Kind.find_name k) (h _) ht

theorem operation_accepts {op : Op} {a b : Expr} {item : Option (Reader Expr)}
    (h : Accepts (pair ("tuple variant Expression::" ++ op.kind.name) item) v (a, b)) :
    Accepts (exprContent item op.kind) v (.binary op a b) := by
  cases op <;> exact h.map fun q => Expr.binary _ q.1 q.2

end

end Json

theorem Expr.Spelled.opens {e : Expr} {t : List Char} {k : Nat} (h : e.Spelled t k) : Opens t := by
  cases h with
  | lit ht => exact ht.opens
  | var _ ht => exact ht.opens
  | binary _ _ _ ht => exact ht.opens

theorem Stmt.Spelled.opens {s : Stmt} {t : List Char} {k : Nat} (h : s.Spelled t k) : Opens t := by
  cases h with
  | bare ht => exact ht.opens
  | null ht => exact ht.opens
  | assign _ _ _ ht => exact ht.opens
  | ite _ _ _ _ ht => exact ht.opens
  | seq _ _ _ ht => exact ht.opens
  | loop _ _ _ ht => exact ht.opens

theorem Expr.Spelled.accepts {e : Expr} {t : List Char} {k : Nat} (h : e.Spelled t k) :
    ∀ {n : Nat}, k ≤ n → Accepts (expression n) t e := by
  induction h with
  | @lit v t ht => exact fun hn => leaf_accepts (value_accepts v) ht hn
  | @var x u t hx ht => exact fun hn => leaf_accepts (k := .ident) (fun _ => hx.accepts.map Expr.var) ht hn
  | @binary op l r u v body t j k hl hr hbody ht ihl ihr =>
    intro n hn
    obtain ⟨n, rfl⟩ : ∃ i, n = i + 2 := ⟨n - 2, by omega⟩
    have hpair := Accepts.pair ("tuple variant Expression::" ++ op.kind.name) (ihl (n := n) (by omega))
      (ihr (n := n) (by omega)) hl.opens hr.opens hbody
    exact Accepts.tagged (Kind.find_name op.kind) (operation_accepts hpair) ht

namespace Json

/-! ### Statements -/

def given {α : Type} (seen : List String) (name : String) (a : α) : Option α := if name ∈ seen then some a else none

section
variable {α : Type} {seen : List String} {x y : String} {a : α}

theorem given_other (h : x ≠ y) : given (y :: seen) x a = given seen x a := by
  simp [given, h]

theorem given_seen (h : x ∈ seen) : given seen x a = some a := if_pos h

theorem isSome_given : (given seen x a).isSome = decide (x ∈ seen) := by
  unfold given
  split <;> simp_all

end

section
variable {expr : Reader Expr} {stmt : Reader Stmt} {x : Ident} {c e : Expr} {a b : Stmt} {u v w : List Char}

theorem assignLayout_drafts (hx : StringSpelled x u) (he : Accepts expr v e) (hv : Opens v) :
    (assignLayout expr).Drafts (fun seen => ⟨given seen "variable" x, given seen "expression" e⟩)
      [("variable", u), ("expression", v)] (.assign x e) where
  lenient := rfl
  distinct := by simp
  blank := rfl
  takes := .cons ⟨rfl, hx.opens, fun _ => isSome_given, fun seen => by simpa [given] using hx.accepts.map _⟩
    (.cons ⟨rfl, hv, fun _ => isSome_given, fun seen => by simpa [given] using he.map _⟩ .nil)
  other := by
    intro y seen hy
    simp only [List.map_cons, List.map_nil, List.mem_cons, List.not_mem_nil, or_false, not_or] at hy
    rw [given_other (Ne.symm hy.1), given_other (Ne.symm hy.2)]
  build := by
    intro seen hseen
    have hvariable := given_seen (a := x) (hseen "variable" (by simp))
    have hexpression := given_seen (a := e) (hseen "expression" (by simp))
    simp only [assignLayout, hvariable, hexpression]
    rfl

theorem choiceLayout_drafts (hc : Accepts expr u c) (ha : Accepts stmt v a) (hb : Accepts stmt w b) (hu : Opens u)
    (hv : Opens v) (hw : Opens w) :
    (choiceLayout expr stmt).Drafts
      (fun seen => ⟨given seen "condition" c, given seen "consequence" a, given seen "alternative" b⟩)
      [("condition", u), ("consequence", v), ("alternative", w)] (.ite c a b) where
  lenient := rfl
  distinct := by simp
  blank := rfl
  takes := .cons ⟨rfl, hu, fun _ => isSome_given, fun seen => by simpa [given] using hc.map _⟩
    (.cons ⟨rfl, hv, fun _ => isSome_given, fun seen => by simpa [given] using ha.map _⟩
      (.cons ⟨rfl, hw, fun _ => isSome_given, fun seen => by simpa [given] using hb.map _⟩ .nil))
  other := by
    intro y seen hy
    simp only [List.map_cons, List.map_nil, List.mem_cons, List.not_mem_nil, or_false, not_or] at hy
    rw [given_other (Ne.symm hy.1), given_other (Ne.symm hy.2.1), given_other (Ne.symm hy.2.2)]
  build := by
    intro seen hseen
    have hcondition := given_seen (a := c) (hseen "condition" (by simp))
    have hconsequence := given_seen (a := a) (hseen "consequence" (by simp))
    have halternative := given_seen (a := b) (hseen "alternative" (by simp))
    simp only [choiceLayout, hcondition, hconsequence, halternative]
    rfl

theorem sequenceLayout_drafts (ha : Accepts stmt u a) (hb : Accepts stmt v b) (hu : Opens u) (hv : Opens v) :
    (sequenceLayout stmt).Drafts (fun seen => ⟨given seen "first" a, given seen "second" b⟩)
      [("first", u), ("second", v)] (.seq a b) where
  lenient := rfl
  distinct := by simp
  blank := rfl
  takes := .cons ⟨rfl, hu, fun _ => isSome_given, fun seen => by simpa [given] using ha.map _⟩
    (.cons ⟨rfl, hv, fun _ => isSome_given, fun seen => by simpa [given] using hb.map _⟩ .nil)
  other := by
    intro y seen hy
    simp only [List.map_cons, List.map_nil, List.mem_cons, List.not_mem_nil, or_false, not_or] at hy
    rw [given_other (Ne.symm hy.1), given_other (Ne.symm hy.2)]
  build := by
    intro seen hseen
    have hfirst := given_seen (a := a) (hseen "first" (by simp))
    have hsecond := given_seen (a := b) (hseen "second" (by simp))
    simp only [sequenceLayout, hfirst, hsecond]
    rfl

theorem loopLayout_drafts (hc : Accepts expr u c) (ha : Accepts stmt v a) (hu : Opens u) (hv : Opens v) :
    (loopLayout expr stmt).Drafts (fun seen => ⟨given seen "condition" c, given seen "body" a⟩)
      [("condition", u), ("body", v)] (.loop c a) where
  lenient := rfl
  distinct := by simp
  blank := rfl
  takes := .cons ⟨rfl, hu, fun _ => isSome_given, fun seen => by simpa [given] using hc.map _⟩
    (.cons ⟨rfl, hv, fun _ => isSome_given, fun seen => by simpa [given] using ha.map _⟩ .nil)
  other := by
    intro y seen hy
    simp only [List.map_cons, List.map_nil, List.mem_cons, List.not_mem_nil, or_false, not_or] at hy
    rw [given_other (Ne.symm hy.1), given_other (Ne.symm hy.2)]
  build := by
    intro seen hseen
    have hcondition := given_seen (a := c) (hseen "condition" (by simp))
    have hbody := given_seen (a := a) (hseen "body" (by simp))
    simp only [loopLayout, hcondition, hbody]
    rfl

theorem bareName_accepts {content : Option (Form → Reader Stmt)} (ht : StringSpelled "DoNothing" u) :
    Accepts (stmtLevel content) u .skip := by
  refine .of_peek fun rest _ => ?_
  have htag := tag_spelled (Form.find_name .doNothing) ht rest
  obtain ⟨t, rfl⟩ := ht.starts
  rw [List.cons_append, bind_ok (peek_cons rfl _)]
  exact bind_ok (f := stmtBare) htag

theorem null_accepts (parts : Option Parts) : Accepts (stmtContent parts .doNothing) ['n', 'u', 'l', 'l'] .skip := by
  have hnull : Accepts null ['n', 'u', 'l', 'l'] () := .of_peek fun rest _ => rfl
  exact hnull.map fun _ => Stmt.skip

end

end Json

/-- A spelling is read where as many levels may be opened as it has, with those in added fields not counted. -/
theorem Stmt.Spelled.accepts {s : Stmt} {t : List Char} {k : Nat} (h : s.Spelled t k) :
    ∀ {n : Nat}, k ≤ n → Accepts (statement n) t s := by
  induction h with
  | bare ht =>
    intro n _
    match n with
    | 0 => exact bareName_accepts ht
    | 1 => exact bareName_accepts ht
    | n + 2 => exact bareName_accepts ht
  | null ht =>
    intro n hn
    match n with
    | 1 => exact Accepts.tagged (Form.find_name .doNothing) (null_accepts none) ht
    | n + 2 => exact Accepts.tagged (Form.find_name .doNothing) (null_accepts _) ht
  | assign hx he hbody ht =>
    intro n hn
    obtain ⟨n, rfl⟩ : ∃ i, n = i + 2 := ⟨n - 2, by omega⟩
    have hdrafts := assignLayout_drafts hx (he.accepts (n := n) (by omega)) he.opens
    exact Accepts.tagged (Form.find_name .assign) (Accepts.record hdrafts hbody) ht
  | ite hc ha hb hbody ht iha ihb =>
    intro n hn
    obtain ⟨n, rfl⟩ : ∃ i, n = i + 2 := ⟨n - 2, by omega⟩
    have hdrafts := choiceLayout_drafts (hc.accepts (n := n) (by omega)) (iha (n := n) (by omega))
      (ihb (n := n) (by omega)) hc.opens ha.opens hb.opens
    exact Accepts.tagged (Form.find_name .choice) (Accepts.record hdrafts hbody) ht
  | seq ha hb hbody ht iha ihb =>
    intro n hn
    obtain ⟨n, rfl⟩ : ∃ i, n = i + 2 := ⟨n - 2, by omega⟩
    have hdrafts := sequenceLayout_drafts (iha (n := n) (by omega)) (ihb (n := n) (by omega)) ha.opens hb.opens
    exact Accepts.tagged (Form.find_name .sequence) (Accepts.record hdrafts hbody) ht
  | loop hc ha hbody ht iha =>
    intro n hn
    obtain ⟨n, rfl⟩ : ∃ i, n = i + 2 := ⟨n - 2, by omega⟩
    have hdrafts := loopLayout_drafts (hc.accepts (n := n) (by omega)) (iha (n := n) (by omega)) hc.opens ha.opens
    exact Accepts.tagged (Form.find_name .loop) (Accepts.record hdrafts hbody) ht

/-! ### Compact documents -/

namespace Json

theorem member_compact (x v : String) : Member (StringSpelled x) v.toList (memberText x v) :=
  ⟨(quote x).toList, [], [], stringSpelled_quote x, .nil, .nil, rfl⟩

theorem tailText_cons (m : String × String) (ms : List (String × String)) :
    tailText (m :: ms) = ',' :: (memberText m.1 m.2 ++ tailText ms) := rfl

theorem membersText_cons (m : String × String) (ms : List (String × String)) :
    membersText (m :: ms) = memberText m.1 m.2 ++ tailText ms := rfl

section
variable {β : Type} {part : β → List Char → Prop} (member : β → String × String)

theorem following_compact (bs : List β) (hpart : ∀ b ∈ bs, part b (memberText (member b).1 (member b).2)) :
    Following part bs (tailText (bs.map member)) := by
  induction bs with
  | nil => exact .last .nil
  | cons b bs ih =>
    have hfollow := ih fun c hc => hpart c (by simp [hc])
    have hcomma := Following.comma Blanks.nil Blanks.nil (hpart b (by simp)) hfollow
    rwa [List.nil_append, List.nil_append, ← tailText_cons, ← List.map_cons] at hcomma

theorem objectText_compact (bs : List β) (hpart : ∀ b ∈ bs, part b (memberText (member b).1 (member b).2)) :
    ObjectText part bs (object (bs.map member)).toList := by
  refine ⟨_, ?_, object_toList _⟩
  cases bs with
  | nil => exact .empty .nil
  | cons b bs =>
    have hfollow := following_compact member bs fun c hc => hpart c (by simp [hc])
    have hfirst := Separated.first Blanks.nil (hpart b (by simp)) hfollow
    rwa [List.nil_append, ← membersText_cons, ← List.map_cons] at hfirst

end

theorem taggedText_compact (x v : String) : TaggedText x v.toList (object [(x, v)]).toList :=
  objectText_compact (fun _ => (x, v)) [v.toList] (by simp [member_compact])

theorem listText_compact (v w : String) : ListText [v.toList, w.toList] (list [v, w]).toList := by
  refine ⟨_, ?_, list_pair_toList v w⟩
  have hlast : Following Eq [w.toList] ([] ++ ',' :: ([] ++ (w.toList ++ []))) := .comma .nil .nil rfl (.last .nil)
  rw [List.append_nil] at hlast
  exact .first .nil rfl hlast

theorem recordText_compact (ms : List (String × String)) :
    RecordText (ms.map fun m => (m.1, m.2.toList)) (object ms).toList := by
  have hall : (ms.map fun m => (m.1, m.2.toList)).filter
      (fun m => m.1 ∈ (ms.map fun m => (m.1, m.2.toList)).map Prod.fst) = ms.map fun m => (m.1, m.2.toList) :=
    List.filter_eq_self.2 fun m hm => decide_eq_true (List.mem_map.2 ⟨m, hm, rfl⟩)
  refine .object (.of_eq hall) (fun m hm hother => absurd (List.mem_map.2 ⟨m, hm, rfl⟩) hother) ?_
  have hmember : ∀ m : String × List Char, MemberText m (memberText m.1 (String.ofList m.2)) := by
    intro m
    simpa using member_compact m.1 (String.ofList m.2)
  have hcompact : ObjectText MemberText (ms.map fun m => (m.1, m.2.toList))
      (object ((ms.map fun m => (m.1, m.2.toList)).map fun m => (m.1, String.ofList m.2))).toList :=
    objectText_compact _ _ fun m _ => hmember m
  simpa [Function.comp_def] using hcompact

end Json

theorem Expr.spelled_json (e : Expr) : e.Spelled e.json.toList e.levels := by
  induction e with
  | lit v => exact .lit (taggedText_compact _ _)
  | var x => exact .var (stringSpelled_quote x) (taggedText_compact "Variable" (quote x))
  | binary op l r ihl ihr => exact .binary ihl ihr (listText_compact _ _) (taggedText_compact _ _)

/-- The compact document is one of the spellings, and its levels are those of the brackets that it shows. -/
theorem Stmt.spelled_json (s : Stmt) : s.Spelled s.json.toList s.levels := by
  induction s with
  | skip => exact .bare (stringSpelled_quote "DoNothing")
  | assign x e =>
    exact .assign (stringSpelled_quote x) e.spelled_json
      (recordText_compact [("variable", quote x), ("expression", e.json)]) (taggedText_compact _ _)
  | ite c a b iha ihb =>
    exact .ite c.spelled_json iha ihb
      (recordText_compact [("condition", c.json), ("consequence", a.json), ("alternative", b.json)])
      (taggedText_compact _ _)
  | seq a b iha ihb =>
    exact .seq iha ihb (recordText_compact [("first", a.json), ("second", b.json)]) (taggedText_compact _ _)
  | loop c body ih =>
    exact .loop c.spelled_json ih (recordText_compact [("condition", c.json), ("body", body.json)])
      (taggedText_compact _ _)

/-- A document that says the statement: one of its spellings, with blanks on both sides. -/
def Stmt.SaidBy (s : Stmt) (document : String) (levels : Nat) : Prop :=
  ∃ w t w', Blanks w ∧ Blanks w' ∧ s.Spelled t levels ∧ document.toList = w ++ (t ++ w')

/-- All documents that say one statement load as it, whatever is in the fields that it has no use for. -/
theorem spellings_load_alike (s : Stmt) :
    s.SaidBy s.json (nesting s.json) ∧
    ∀ document levels, s.SaidBy document levels → levels ≤ 127 → Stmt.load document = .ok s := by
  refine ⟨⟨[], s.json.toList, [], .nil, .nil, ?_, by simp⟩, ?_⟩
  · rw [nesting_of_nests s.nests_json]
    exact s.spelled_json
  · rintro document levels ⟨w, t, w', hw, hw', ht, hdocument⟩ hlevels
    exact (ht.accepts hlevels).load hw hw' hdocument

/-- Blanks, an escape in a name, fields in another order and among others, a number beyond all range and half of a
surrogate pair in a field that is passed over, a variable that is such a pair, a record as a list, and a `null`. -/
theorem respelled_choice_loads :
    let s : Stmt := .ite (.var "😀") (.loop (.lit (.bool true)) .skip) .skip
    let document :=
      "\x7b\"\\u0049f\" :\x7b\"alternative\":\x7b\"DoNothing\":null\x7d," ++
        "\"note\":[1e999,\"\\uD800\"]," ++
        "\"consequence\":\x7b\"While\":[\x7b\"Boolean\":true\x7d, \"DoNothing\"]\x7d," ++
        "\"condition\":\x7b\"Variable\":\"\\ud83d\\uDE00\"\x7d\x7d\x7d\n"
    s.SaidBy document 5 ∧ 5 ≤ 127 ∧ Stmt.load document = .ok s := by
  intro s document
  have hunit : HexUnit ['0', '0', '4', '9'] 'I'.toNat :=
    .digits (i := 0) (j := 0) (k := 4) (l := 9) ⟨by decide, .inl rfl⟩ ⟨by decide, .inl rfl⟩ ⟨by decide, .inl rfl⟩
      ⟨by decide, .inl rfl⟩
  have hif : StringSpelled "If" ['"', '\\', 'u', '0', '0', '4', '9', 'f', '"'] :=
    ⟨_, .cons (.unit hunit) (.cons (.plain (c := 'f') (by decide) (by decide) (by decide)) .nil), rfl⟩
  have hhigh : HexUnit ['d', '8', '3', 'd'] 0xD83D :=
    .digits (i := 13) (j := 8) (k := 3) (l := 13) ⟨by decide, .inl rfl⟩ ⟨by decide, .inl rfl⟩ ⟨by decide, .inl rfl⟩
      ⟨by decide, .inl rfl⟩
  have hlow : HexUnit ['D', 'E', '0', '0'] 0xDE00 :=
    .digits (i := 13) (j := 14) (k := 0) (l := 0) ⟨by decide, .inr rfl⟩ ⟨by decide, .inr rfl⟩ ⟨by decide, .inl rfl⟩
      ⟨by decide, .inl rfl⟩
  have hface : StringSpelled "😀" ['"', '\\', 'u', 'd', '8', '3', 'd', '\\', 'u', 'D', 'E', '0', '0', '"'] :=
    ⟨_, .cons (.pair hhigh hlow (by decide) (by decide) (by decide) (by decide) rfl) .nil, rfl⟩
  have hcondition : (Expr.var "😀").Spelled _ 1 :=
    .var hface ⟨_, .first .nil ⟨_, [], [], stringSpelled_quote "Variable", .nil, .nil, rfl⟩ (.last .nil), rfl⟩
  have hspace : Blanks [' '] := by simp [Blanks]
  have hbody : ListText [(Expr.lit (.bool true)).json.toList, (quote "DoNothing").toList] _ :=
    ⟨_, .first .nil rfl (.comma .nil hspace rfl (.last .nil)), rfl⟩
  have hconsequence : (Stmt.loop (.lit (.bool true)) .skip).Spelled _ 3 :=
    .loop (Expr.spelled_json (.lit (.bool true))) (.bare (stringSpelled_quote "DoNothing")) (.list hbody)
      ⟨_, .first .nil ⟨_, [], [], stringSpelled_quote "While", .nil, .nil, rfl⟩ (.last .nil), rfl⟩
  have halternative : Stmt.skip.Spelled _ 1 := .null (taggedText_compact "DoNothing" "null")
  have hnumber : NumberText ([] ++ (['1'] ++ ([] ++ 'e' :: ([] ++ ['9', '9', '9'])))) :=
    .parts (by simp) ⟨⟨by simp, List.all_eq_true.1 rfl⟩, by decide⟩ .absent
      (.present (.inl rfl) (by simp) ⟨by simp, List.all_eq_true.1 rfl⟩)
  have hhalf : HexUnit ['D', '8', '0', '0'] 0xD800 :=
    .digits (i := 13) (j := 8) (k := 0) (l := 0) ⟨by decide, .inr rfl⟩ ⟨by decide, .inl rfl⟩ ⟨by decide, .inl rfl⟩
      ⟨by decide, .inl rfl⟩
  have hstring : StringText ['"', '\\', 'u', 'D', '8', '0', '0', '"'] := ⟨_, .cons (.unit hhalf) .nil, rfl⟩
  have hnote : WellFormed _ :=
    .list ⟨_, .first .nil rfl (.comma .nil .nil rfl (.last .nil)), rfl⟩
      (List.forall_mem_cons.2 ⟨.number hnumber, List.forall_mem_singleton.2 (.string hstring)⟩)
  have hmember : ∀ (x : String) (v : List Char), MemberText (x, v) ((quote x).toList ++ ':' :: v) :=
    fun x v => ⟨_, [], [], stringSpelled_quote x, .nil, .nil, rfl⟩
  have hrecord := fun (u v w z : List Char) (hz : WellFormed z) =>
    @RecordText.object [("condition", u), ("consequence", v), ("alternative", w)]
      [("alternative", w), ("note", z), ("consequence", v), ("condition", u)] _
      (List.reverse_perm [("condition", u), ("consequence", v), ("alternative", w)]) (by simp [hz])
      ⟨_, .first .nil (hmember _ _) (.comma .nil .nil (hmember _ _) (.comma .nil .nil (hmember _ _)
        (.comma .nil .nil (hmember _ _) (.last .nil)))), rfl⟩
  have hspelled : s.Spelled _ 5 :=
    .ite hcondition hconsequence halternative (hrecord _ _ _ _ hnote)
      ⟨_, .first .nil ⟨_, [' '], [], hif, hspace, .nil, rfl⟩ (.last .nil), rfl⟩
  have hsaid : s.SaidBy document 5 := ⟨[], _, ['\n'], .nil, by simp [Blanks], hspelled, by decide +kernel⟩
  exact ⟨hsaid, by decide, (spellings_load_alike s).2 document 5 hsaid (by decide)⟩

end WhileLang
