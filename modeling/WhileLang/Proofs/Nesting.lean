import WhileLang.Document
import WhileLang.Proofs.Tokens

/-! How deep a document nests. `nesting` goes over the characters of a text and counts
the brackets that are open at once; brackets inside of strings do not count. For
the document of a value this is what `levels` says of the value itself. -/

namespace WhileLang

namespace Json

inductive Zone where
  | outside
  /-- In a string. -/
  | inside
  /-- In a string, behind a backslash. -/
  | escaped

structure Scan where
  zone : Zone
  /-- How many brackets are open. -/
  opened : Nat
  /-- How many were open at once, at most. -/
  most : Nat

def Scan.next (s : Scan) (c : Char) : Scan :=
  match s.zone with
  | .outside =>
    if c = '"' then ⟨.inside, s.opened, s.most⟩
    else if c = '\x7b' ∨ c = '[' then ⟨.outside, s.opened + 1, max s.most (s.opened + 1)⟩
    else if c = '\x7d' ∨ c = ']' then ⟨.outside, s.opened - 1, s.most⟩
    else s
  | .inside =>
    if c = '"' then ⟨.outside, s.opened, s.most⟩
    else if c = '\\' then ⟨.escaped, s.opened, s.most⟩
    else s
  | .escaped => ⟨.inside, s.opened, s.most⟩

/-- How many brackets of a document are open at once, at most. -/
def nesting (document : String) : Nat := (document.toList.foldl Scan.next ⟨.outside, 0, 0⟩).most

/-- A text with whole strings that closes the brackets it opens, of which `k` are open at once. -/
def Nests (text : List Char) (k : Nat) : Prop :=
  ∀ i m, i ≤ m → text.foldl Scan.next ⟨.outside, i, m⟩ = ⟨.outside, i, max m (i + k)⟩

theorem nesting_of_nests {document : String} {k : Nat} (h : Nests document.toList k) : nesting document = k := by
  rw [nesting, h 0 0 (Nat.le_refl 0)]
  simp

namespace Nests

variable {s t : List Char} {j k : Nat} {x v : String} {ms : List (String × String)}

theorem nil : Nests [] 0 := by
  intro i m h
  rw [List.foldl_nil, Nat.add_zero, Nat.max_eq_left h]

theorem append (hs : Nests s j) (ht : Nests t k) : Nests (s ++ t) (max j k) := by
  intro i m h
  rw [List.foldl_append, hs i m h, ht i _ (Nat.le_trans h (Nat.le_max_left ..))]
  congr 1
  omega

def Plain (c : Char) : Prop := c ≠ '"' ∧ c ≠ '\x7b' ∧ c ≠ '[' ∧ c ≠ '\x7d' ∧ c ≠ ']'

instance (c : Char) : Decidable (Plain c) := inferInstanceAs (Decidable (_ ∧ _))

theorem cons {c : Char} (hc : Plain c) (hs : Nests s k) : Nests (c :: s) k := by
  intro i m h
  obtain ⟨hquote, hbrace, hbracket, hbrace', hbracket'⟩ := hc
  rw [List.foldl_cons]
  simp only [Scan.next, hquote, hbrace, hbracket, hbrace', hbracket', or_self, if_false]
  exact hs i m h

theorem of_plain (h : ∀ c ∈ s, Plain c) : Nests s 0 := by
  induction s with
  | nil => exact nil
  | cons c s ih => exact cons (h c (by simp)) (ih fun d hd => h d (by simp [hd]))

theorem enclosed {o c : Char} (ho : o = '\x7b' ∨ o = '[') (hc : c = '\x7d' ∨ c = ']') (hs : Nests s k) :
    Nests (o :: (s ++ [c])) (k + 1) := by
  intro i m h
  have hopen : Scan.next ⟨.outside, i, m⟩ o = ⟨.outside, i + 1, max m (i + 1)⟩ := by
    rcases ho with rfl | rfl <;> rfl
  have hclose : ∀ n, Scan.next ⟨.outside, i + 1, n⟩ c = ⟨.outside, i, n⟩ := by
    intro n
    rcases hc with rfl | rfl <;> rfl
  rw [List.foldl_cons, hopen, List.foldl_append, hs _ _ (Nat.le_max_right ..), List.foldl_cons, hclose, List.foldl_nil]
  congr 1
  omega

/-! ### Strings -/

theorem foldl_escapeChar (c : Char) (i m : Nat) :
    (escapeChar c).foldl Scan.next ⟨.inside, i, m⟩ = ⟨.inside, i, m⟩ := by
  have hstay : ∀ {d : Char}, d ≠ '"' → d ≠ '\\' → Scan.next ⟨.inside, i, m⟩ d = ⟨.inside, i, m⟩ := by
    intro d hquote hback
    simp only [Scan.next, hquote, hback, if_false]
  have hdigit : ∀ d < 16, Nat.digitChar d ≠ '"' ∧ Nat.digitChar d ≠ '\\' := by decide
  unfold escapeChar
  split
  case h_8 hquote hback _ _ _ _ _ =>
    split
    · next hc =>
      -- behind the backslash and its letter, digits only
      obtain ⟨h₁, h₁'⟩ := hdigit (c.toNat / 16) (by omega)
      obtain ⟨h₂, h₂'⟩ := hdigit (c.toNat % 16) (by omega)
      exact (congrArg (Scan.next · _) (hstay h₁ h₁')).trans (hstay h₂ h₂')
    · exact hstay hquote hback
  all_goals rfl

theorem quote (x : String) : Nests (Json.quote x).toList 0 := by
  have hchars : ∀ (cs : List Char) (i m : Nat),
      (cs.flatMap escapeChar).foldl Scan.next ⟨.inside, i, m⟩ = ⟨.inside, i, m⟩ := by
    intro cs i m
    induction cs with
    | nil => rfl
    | cons c cs ih => rw [List.flatMap_cons, List.foldl_append, foldl_escapeChar, ih]
  intro i m h
  rw [quote_toList, List.foldl_cons, List.foldl_append]
  have hopen : Scan.next ⟨.outside, i, m⟩ '"' = ⟨.inside, i, m⟩ := rfl
  rw [hopen, hchars, Nat.add_zero, Nat.max_eq_left h]
  rfl

end Nests

/-! ### Objects and lists -/

def memberText (x v : String) : List Char := (quote x).toList ++ ':' :: v.toList

def tailText : List (String × String) → List Char
  | [] => []
  | (x, v) :: ms => ',' :: (memberText x v ++ tailText ms)

def membersText : List (String × String) → List Char
  | [] => []
  | (x, v) :: ms => memberText x v ++ tailText ms

theorem object_toList (ms : List (String × String)) : (object ms).toList = '\x7b' :: (membersText ms ++ ['\x7d']) := by
  have htail : ∀ (m : String × String) (ms : List (String × String)),
      List.intercalate [','] ((m :: ms).map fun m => memberText m.1 m.2) = memberText m.1 m.2 ++ tailText ms := by
    intro m ms
    induction ms generalizing m with
    | nil => simp [tailText]
    | cons n ms ih =>
      have := ih n
      simp_all [tailText, List.intercalate]
  have hmembers : (",".intercalate (ms.map fun m => quote m.1 ++ ":" ++ m.2)).toList = membersText ms := by
    have hmap : (ms.map fun m => quote m.1 ++ ":" ++ m.2).map String.toList = ms.map fun m => memberText m.1 m.2 := by
      simp [memberText]
    rw [String.toList_intercalate, hmap]
    cases ms with
    | nil => rfl
    | cons m ms => exact htail m ms
  rw [object, String.toList_append, String.toList_append, hmembers]
  rfl

theorem list_pair_toList (a b : String) : (list [a, b]).toList = '[' :: ((a.toList ++ ',' :: b.toList) ++ [']']) := by
  rw [list, String.toList_append, String.toList_append, String.toList_intercalate]
  simp [List.intercalate]

namespace Nests

variable {j k : Nat} {x v w : String} {ms : List (String × String)}

theorem member (hv : Nests v.toList k) : Nests (memberText x v) k := by
  have h := (quote x).append (cons (c := ':') (by decide) hv)
  rwa [Nat.zero_max] at h

theorem tail_nil : Nests (tailText []) 0 := nil

theorem tail_cons (hv : Nests v.toList k) (hms : Nests (tailText ms) j) : Nests (tailText ((x, v) :: ms)) (max k j) :=
  cons (by decide) (hv.member.append hms)

theorem object_nil : Nests (object []).toList 1 := by
  rw [object_toList]
  exact enclosed (.inl rfl) (.inl rfl) nil

theorem object_cons (hv : Nests v.toList k) (hms : Nests (tailText ms) j) :
    Nests (object ((x, v) :: ms)).toList (max k j + 1) := by
  rw [object_toList]
  exact enclosed (.inl rfl) (.inl rfl) (hv.member.append hms)

theorem object_one (hv : Nests v.toList k) : Nests (object [(x, v)]).toList (k + 1) := by
  have h := object_cons (x := x) hv tail_nil
  rwa [Nat.max_zero] at h

theorem pair (hv : Nests v.toList j) (hw : Nests w.toList k) : Nests (list [v, w]).toList (max j k + 1) := by
  rw [list_pair_toList]
  exact enclosed (.inr rfl) (.inr rfl) (hv.append (cons (by decide) hw))

end Nests

end Json

/-! ### Values -/

open Json

def Expr.levels : Expr → Nat
  | lit _ => 1
  | var _ => 1
  | binary _ l r => max l.levels r.levels + 2

def Stmt.levels : Stmt → Nat
  | skip => 0
  | assign _ e => e.levels + 2
  | ite c t f => max c.levels (max t.levels f.levels) + 2
  | seq a b => max a.levels b.levels + 2
  | loop c body => max c.levels body.levels + 2

def Env.levels (env : Env) : Nat := (env.entries.map fun b => b.2.levels).foldr max 0 + 1

def Program.levels (p : Program) : Nat := p.statement.levels + 1

theorem Value.nests_text (v : Value) : Nests v.text.toList 0 := by
  refine Nests.of_plain fun c hc => ?_
  cases v with
  | bool b =>
    have hall : (Value.bool b).text.toList.all (fun c => decide (Nests.Plain c)) = true := by cases b <;> rfl
    exact of_decide_eq_true (List.all_eq_true.1 hall c hc)
  | num n =>
    have hdigit : ∀ k, ∀ c ∈ Nat.toDigits 10 k, Nests.Plain c := by
      intro k c hc
      have h := Nat.isDigit_of_mem_toDigits (by decide) (by decide) hc
      refine ⟨?_, ?_, ?_, ?_, ?_⟩ <;> rintro rfl <;> exact absurd h (by decide)
    rw [Value.text] at hc
    cases hi : n.toInt with
    | ofNat k =>
      rw [hi, Text.ofInt, Text.ofNat, String.toList_ofList] at hc
      exact hdigit k c hc
    | negSucc k =>
      rw [hi, Text.ofInt, String.toList_append, List.mem_append] at hc
      rcases hc with hc | hc
      · rw [List.mem_singleton.1 hc]
        decide
      · rw [Text.ofNat, String.toList_ofList] at hc
        exact hdigit _ c hc

theorem Expr.nests_json (e : Expr) : Nests e.json.toList e.levels := by
  induction e with
  | lit v => exact .object_one v.nests_text
  | var x => exact .object_one (.quote x)
  | binary op l r ihl ihr => exact .object_one (.pair ihl ihr)

theorem Stmt.nests_json (s : Stmt) : Nests s.json.toList s.levels := by
  induction s with
  | skip => exact .quote _
  | assign x e =>
    have h : Nests (object [("variable", quote x), ("expression", e.json)]).toList (max 0 (max e.levels 0) + 1) :=
      .object_cons (.quote x) (.tail_cons e.nests_json .tail_nil)
    rw [Nat.zero_max, Nat.max_zero] at h
    exact .object_one h
  | ite c t f iht ihf =>
    have h : Nests (object [("condition", c.json), ("consequence", t.json), ("alternative", f.json)]).toList
        (max c.levels (max t.levels (max f.levels 0)) + 1) :=
      .object_cons c.nests_json (.tail_cons iht (.tail_cons ihf .tail_nil))
    rw [Nat.max_zero] at h
    exact .object_one h
  | seq a b iha ihb =>
    have h : Nests (object [("first", a.json), ("second", b.json)]).toList (max a.levels (max b.levels 0) + 1) :=
      .object_cons iha (.tail_cons ihb .tail_nil)
    rw [Nat.max_zero] at h
    exact .object_one h
  | loop c body ih =>
    have h : Nests (object [("condition", c.json), ("body", body.json)]).toList
        (max c.levels (max body.levels 0) + 1) :=
      .object_cons c.nests_json (.tail_cons ih .tail_nil)
    rw [Nat.max_zero] at h
    exact .object_one h

theorem Env.nests_json (env : Env) : Nests env.json.toList env.levels := by
  have htail : ∀ l : List (String × Expr), Nests (tailText (l.map fun b => (b.1, b.2.json)))
      ((l.map fun b => b.2.levels).foldr max 0) := by
    intro l
    induction l with
    | nil => exact .tail_nil
    | cons b l ih => exact .tail_cons b.2.nests_json ih
  rw [Env.json, Env.levels]
  cases env.entries with
  | nil => exact .object_nil
  | cons b l => exact .object_cons b.2.nests_json (htail l)

theorem Program.nests_json (p : Program) : Nests p.json.toList p.levels := .object_one p.statement.nests_json

end WhileLang
