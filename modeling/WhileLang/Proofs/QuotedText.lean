import WhileLang.Json.Reader
import WhileLang.Proofs.Emission

/-! Quoted text is a literal. A grammar says what may stand between the quotes of one: any
character as it is, unless it is a quote, a backslash or a control, and escapes
(`LiteralChars`). A reader that knows the escapes, and knows nothing of which characters
are printable, takes every literal apart and finds where it ends, whatever comes behind
it; so a literal has one reading only. Names are quoted in generated code, and so what is
in a name stays in its literal. -/

namespace WhileLang.Text

inductive Place where
  | between
  /-- Behind a backslash. -/
  | escape
  /-- At the brace of a code point. -/
  | brace
  /-- In the braces, behind so many digits of this value. -/
  | digits (count value : Nat)

def escaped? : Char → Option Char
  | '"' => some '"'
  | '\\' => some '\\'
  | 'n' => some '\n'
  | 'r' => some '\r'
  | 't' => some '\t'
  | '0' => some '\x00'
  | _ => none

def putFront (c : Char) (r : Option (List Char × List Char)) : Option (List Char × List Char) :=
  r.map fun p => (c :: p.1, p.2)

/-- The text up to the closing quote, and what is left behind it. A code point has one to six digits. -/
def readFrom? : Place → List Char → Option (List Char × List Char)
  | _, [] => none
  | .between, c :: cs =>
    if c = '"' then some ([], cs)
    else if c = '\\' then readFrom? .escape cs
    else if c = '\r' then none
    else putFront c (readFrom? .between cs)
  | .escape, c :: cs =>
    if c = 'u' then readFrom? .brace cs
    else (escaped? c).bind fun d => putFront d (readFrom? .between cs)
  | .brace, c :: cs => if c = '\x7b' then readFrom? (.digits 0 0) cs else none
  | .digits k n, c :: cs =>
    if c = '\x7d' then
      if 0 < k ∧ n.isValidChar then putFront (Char.ofNat n) (readFrom? .between cs) else none
    else (Json.hexDigit? c).bind fun d => if k < 6 then readFrom? (.digits (k + 1) (16 * n + d)) cs else none

def readQuoted? : List Char → Option (List Char × List Char)
  | '"' :: cs => readFrom? .between cs
  | _ => none

def isControl (c : Char) : Bool := decide (c.toNat < 0x20 ∨ 0x7f ≤ c.toNat ∧ c.toNat < 0xa0)

inductive LiteralChar : Char → List Char → Prop where
  | plain {c : Char} : c ≠ '"' → c ≠ '\\' → isControl c = false → LiteralChar c [c]
  | letter {c l : Char} : escaped? l = some c → LiteralChar c ['\\', l]
  | point {c : Char} {ds : List Char} : 0 < ds.length → ds.length ≤ 6 → Json.hexDigits? ds 0 = some c.toNat →
    LiteralChar c ('\\' :: 'u' :: '\x7b' :: (ds ++ ['\x7d']))

/-- What may stand between the quotes of a literal, and the text that it stands for. -/
inductive LiteralChars : List Char → List Char → Prop where
  | nil : LiteralChars [] []
  | cons {c : Char} {s t ts : List Char} : LiteralChar c t → LiteralChars s ts → LiteralChars (c :: s) (t ++ ts)

/-! ### Reading literals -/

section
variable {c : Char} {s s' t ds : List Char} {k n m d : Nat}

/-- The digits of a code point, which may have others before them. -/
theorem readFrom?_hexDigits (h : Json.hexDigits? ds n = some m) (hlen : k + ds.length ≤ 6) (cs : List Char) :
    readFrom? (.digits k n) (ds ++ cs) = readFrom? (.digits (k + ds.length) m) cs := by
  induction ds generalizing k n with
  | nil =>
    obtain rfl : n = m := Option.some.inj h
    rfl
  | cons c ds ih =>
    rw [List.length_cons] at hlen
    rw [Json.hexDigits?] at h
    split at h
    · next d hd =>
      have hbrace : c ≠ '\x7d' := by
        rintro rfl
        cases hd
      have hk : k < 6 := by omega
      rw [List.cons_append, readFrom?, if_neg hbrace, hd, Option.bind_some, if_pos hk, ih h (by omega),
        List.length_cons, Nat.add_right_comm, Nat.add_assoc]
    · cases h

theorem LiteralChar.read (h : LiteralChar c t) (cs : List Char) :
    readFrom? .between (t ++ cs) = putFront c (readFrom? .between cs) := by
  cases h with
  | plain hquote hback hcontrol =>
    have hreturn : c ≠ '\r' := by
      rintro rfl
      cases hcontrol
    rw [List.singleton_append, readFrom?, if_neg hquote, if_neg hback, if_neg hreturn]
  | @letter l hl =>
    have hpoint : l ≠ 'u' := by
      rintro rfl
      cases hl
    change readFrom? .escape (l :: cs) = _
    rw [readFrom?, if_neg hpoint, hl, Option.bind_some]
  | @point ds hpos hlen hvalue =>
    have hclose : readFrom? (.digits (0 + ds.length) c.toNat) ('\x7d' :: cs) = putFront c (readFrom? .between cs) := by
      rw [readFrom?, if_pos rfl, if_pos ⟨by omega, c.valid⟩, Char.ofNat_toNat]
    change readFrom? (.digits 0 0) ((ds ++ ['\x7d']) ++ cs) = _
    rw [List.append_assoc, List.singleton_append, readFrom?_hexDigits hvalue (by omega), hclose]

/-- The closing quote is found, and all that comes behind it is left. -/
theorem LiteralChars.read (h : LiteralChars s t) (rest : List Char) :
    readFrom? .between (t ++ '"' :: rest) = some (s, rest) := by
  induction h with
  | nil => rfl
  | cons hc _ ih =>
    rw [List.append_assoc, hc.read, ih]
    rfl

theorem LiteralChars.unique (h : LiteralChars s t) (h' : LiteralChars s' t) : s' = s := by
  have hread := h.read []
  rw [h'.read] at hread
  exact (Prod.mk.inj (Option.some.inj hread)).1

/-! ### No raw controls -/

theorem isControl_hexDigit (h : Json.hexDigit? c = some d) : isControl c = false := by
  have hrange : 0x30 ≤ c.toNat ∧ c.toNat ≤ 0x66 := by
    unfold Json.hexDigit? at h
    split at h
    · next hc =>
      have hc : 0x30 ≤ c.toNat ∧ c.toNat ≤ 0x39 := hc
      omega
    · split at h
      · next hc =>
        have hc : 0x61 ≤ c.toNat ∧ c.toNat ≤ 0x66 := hc
        omega
      · split at h
        · next hc =>
          have hc : 0x41 ≤ c.toNat ∧ c.toNat ≤ 0x46 := hc
          omega
        · cases h
  simp only [isControl, decide_eq_false_iff_not]
  omega

theorem any_isControl_hexDigits (h : Json.hexDigits? ds n = some m) : ds.any isControl = false := by
  induction ds generalizing n with
  | nil => rfl
  | cons c ds ih =>
    rw [Json.hexDigits?] at h
    split at h
    · next d hd => rw [List.any_cons, isControl_hexDigit hd, ih h, Bool.or_false]
    · cases h

theorem isControl_escaped {l : Char} (h : escaped? l = some c) : isControl l = false := by
  unfold escaped? at h
  split at h
  case h_7 => cases h
  all_goals rfl

theorem LiteralChar.any_isControl (h : LiteralChar c t) : t.any isControl = false := by
  cases h with
  | plain _ _ hcontrol => simp [hcontrol]
  | letter hl =>
    have hback : isControl '\\' = false := rfl
    simp [hback, isControl_escaped hl]
  | point _ _ hvalue =>
    simp only [List.any_cons, List.any_append, any_isControl_hexDigits hvalue]
    rfl

theorem LiteralChars.any_isControl (h : LiteralChars s t) : t.any isControl = false := by
  induction h with
  | nil => rfl
  | cons hc _ ih => rw [List.any_append, hc.any_isControl, ih, Bool.or_false]

end

/-! ### Quoted text -/

theorem hexDigits?_append (ds es : List Char) (n : Nat) :
    Json.hexDigits? (ds ++ es) n = (Json.hexDigits? ds n).bind (Json.hexDigits? es) := by
  induction ds generalizing n with
  | nil => rfl
  | cons c ds ih =>
    rw [List.cons_append, Json.hexDigits?, Json.hexDigits?]
    split
    · exact ih _
    · rfl

/-- The digits of a number, the first of which come from its quotient. -/
theorem hexDigits?_toDigits (n : Nat) : Json.hexDigits? (Nat.toDigits 16 n) 0 = some n := by
  have hdigit : ∀ d < 16, Json.hexDigit? (Nat.digitChar d) = some d := by decide
  induction n using Nat.strongRecOn with
  | ind n ih =>
    by_cases hn : n < 16
    · rw [Nat.toDigits_of_lt_base hn, Json.hexDigits?, hdigit n hn]
      simp [Json.hexDigits?]
    · rw [Nat.toDigits_of_base_le (by decide) (Nat.le_of_not_lt hn), hexDigits?_append, ih (n / 16) (by omega),
        Option.bind_some, Json.hexDigits?, hdigit (n % 16) (Nat.mod_lt n (by decide))]
      simp only [Json.hexDigits?]
      rw [Nat.div_add_mod]

theorem literalChar_codePoint (c : Char) : LiteralChar c (codePoint c) := by
  refine .point Nat.length_toDigits_pos ?_ (hexDigits?_toDigits c.toNat)
  rw [Nat.length_toDigits_le_iff (by decide) (by decide)]
  have hvalid : c.toNat.isValidChar := c.valid
  rcases hvalid with h | h <;> omega

/-- The table of what is not printable has all controls. -/
theorem isUnprintable_of_isControl {c : Char} (h : isControl c = true) : isUnprintable c = true := by
  obtain ⟨rest, hrest⟩ : ∃ rest, unprintableRanges = (0x0, 0x1f) :: (0x7f, 0xa0) :: rest := ⟨_, rfl⟩
  simp only [isControl, decide_eq_true_eq] at h
  simp only [isUnprintable, hrest, inRanges, Bool.and_eq_true, Bool.or_eq_true, decide_eq_true_eq]
  omega

theorem literalChar_escapeQuoted (c : Char) : LiteralChar c (escapeQuoted c) := by
  unfold escapeQuoted
  split
  case h_7 hquote hback _ _ _ _ =>
    split
    · exact literalChar_codePoint c
    · next hshown =>
      refine .plain hquote hback (Bool.eq_false_iff.2 fun hcontrol => hshown ?_)
      rw [isUnprintable_of_isControl hcontrol, Bool.or_true]
  all_goals exact .letter rfl

theorem literalChars_flatMap (s : List Char) : LiteralChars s (s.flatMap escapeQuoted) := by
  induction s with
  | nil => exact .nil
  | cons c s ih => exact .cons (literalChar_escapeQuoted c) ih

theorem quoted_toList (s : String) : (quoted s).toList = '"' :: (s.toList.flatMap escapeQuoted ++ ['"']) :=
  String.toList_ofList

theorem readQuoted?_quoted (s : String) (rest : List Char) :
    readQuoted? ((quoted s).toList ++ rest) = some (s.toList, rest) := by
  rw [quoted_toList, List.cons_append, List.append_assoc, List.singleton_append]
  exact (literalChars_flatMap s.toList).read rest

end WhileLang.Text

namespace WhileLang

open Code

/-- Whatever a name is, its text in generated code is a literal: it stands for the name and for nothing else, has no
raw control in it, and ends at its last quote whatever code comes behind it. -/
theorem names_stay_in_their_literals (x : Ident) :
    (∃ body, (Text.quoted x).toList = '"' :: (body ++ ['"']) ∧
      (∀ s, Text.LiteralChars s body ↔ s = x.toList) ∧ body.any Text.isControl = false) ∧
    (∀ rest, Text.readQuoted? ((Text.quoted x).toList ++ rest) = some (x.toList, rest)) ∧
    (Expr.var x).source = "|e: &BTreeMap<String, String>| -> String \x7b e[" ++ Text.quoted x ++ "].clone() \x7d" ∧
    ∀ e : Expr, (Stmt.assign x e).source =
      "|mut e: BTreeMap<String, String>| -> BTreeMap<String, String> \x7b let v = (" ++ e.source ++
        ")(&e); e.insert(String::from(" ++ Text.quoted x ++ "), v); e \x7d" := by
  have hchars := Text.literalChars_flatMap x.toList
  have hvar : exprSig ++ " \x7b e[" = "|e: &BTreeMap<String, String>| -> String \x7b e[" := by decide
  have hassign : stmtMutSig ++ " \x7b let v = (" =
      "|mut e: BTreeMap<String, String>| -> BTreeMap<String, String> \x7b let v = (" := by decide
  refine ⟨⟨_, Text.quoted_toList x, fun s => ⟨hchars.unique, ?_⟩, hchars.any_isControl⟩, Text.readQuoted?_quoted x,
    by rw [Expr.source_var, hvar], fun e => by rw [Stmt.source_assign, hassign]⟩
  rintro rfl
  exact hchars

/-- A digit behind an escaped null, a quote and a bracket as they stand in generated code, and an accent. -/
example : Text.quoted "\x001\"].clone()\u0301" = "\"\\01\\\"].clone()\\u\x7b301\x7d\"" := rfl

end WhileLang
