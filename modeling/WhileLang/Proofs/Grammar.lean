import WhileLang.Proofs.ReadBack

/-! The format of documents, said by a grammar over texts and not by a reader: where blanks
may stand, the spellings of a character, and the parts of lists and objects. `Accepts` is
what a reader does with a text of the grammar: it reads one value off it, and no more. -/

namespace WhileLang.Json

/-! ### Blanks -/

def Blanks (w : List Char) : Prop := ∀ c ∈ w, c ∈ [' ', '\t', '\r', '\n']

theorem Blanks.nil : Blanks [] := by simp [Blanks]

theorem Blanks.isBlank {w : List Char} (h : Blanks w) : ∀ c ∈ w, isBlank c = true := by
  intro c hc
  have hmem := h c hc
  simp only [List.mem_cons, List.not_mem_nil, or_false] at hmem
  rcases hmem with rfl | rfl | rfl | rfl <;> rfl

theorem peek_blanks {w : List Char} (hw : Blanks w) (s : List Char) : peek (w ++ s) = peek s := by
  rw [peek, peek, List.dropWhile_append_of_pos hw.isBlank]

theorem peek_behind {w : List Char} {c : Char} (hw : Blanks w) (hc : isBlank c = false) (s : List Char) :
    peek (w ++ c :: s) = .ok (some c, c :: s) := by
  rw [peek_blanks hw, peek_cons hc]

theorem Blanks.endsNumber_append {w s : List Char} (hw : Blanks w) (hs : EndsNumber s) : EndsNumber (w ++ s) := by
  cases w with
  | nil => exact hs
  | cons c w =>
    have hc := hw c (by simp)
    simp only [List.mem_cons, List.not_mem_nil, or_false] at hc
    rcases hc with rfl | rfl | rfl | rfl <;> exact endsNumber_cons (by decide) _

theorem Blanks.endsNumber {w : List Char} (hw : Blanks w) : EndsNumber w := by
  have h := hw.endsNumber_append endsNumber_nil
  rwa [List.append_nil] at h

/-- With any blanks before it, and anything behind it that is no part of a number, `text` is read as `a` and no
further. -/
def Accepts {α : Type} (r : Reader α) (text : List Char) (a : α) : Prop :=
  ∀ w rest, Blanks w → EndsNumber rest → r (w ++ (text ++ rest)) = .ok (a, rest)

namespace Accepts

variable {α β : Type} {r : Reader α} {text : List Char} {a : α}

theorem map (h : Accepts r text a) (f : α → β) : Accepts (do return f (← r)) text (f a) := by
  intro w rest hw hrest
  rw [bind_ok (h w rest hw hrest)]
  rfl

theorem here (h : Accepts r text a) {rest : List Char} (hrest : EndsNumber rest) : r (text ++ rest) = .ok (a, rest) :=
  h [] rest .nil hrest

/-- A reader that looks at the next character before all else does not see the blanks before it. -/
theorem of_peek {f : Option Char → Reader α}
    (h : ∀ rest, EndsNumber rest → (peek >>= f) (text ++ rest) = .ok (a, rest)) : Accepts (peek >>= f) text a := by
  intro w rest hw hrest
  have hsame : (peek >>= f) (w ++ (text ++ rest)) = (peek >>= f) (text ++ rest) := by
    have hpeek : peek (text ++ rest) = .ok (_, _) := rfl
    rw [bind_ok hpeek, bind_ok ((peek_blanks hw _).trans hpeek)]
  rw [hsame, h rest hrest]

/-- A whole document may have blanks on both sides. -/
theorem load {document : String} {w w' : List Char} (h : Accepts r text a) (hw : Blanks w) (hw' : Blanks w')
    (hdocument : document.toList = w ++ (text ++ w')) : Json.load r document = .ok a := by
  have hfinish : finish w' = .ok ((), []) := by
    have hpeek := peek_blanks hw' []
    rw [List.append_nil] at hpeek
    rw [finish, bind_ok (hpeek.trans rfl)]
    rfl
  have hwhole : (do let a ← r; finish; return a : Reader α) document.toList = .ok (a, []) := by
    rw [hdocument, bind_ok (h w w' hw hw'.endsNumber), bind_ok hfinish]
    rfl
  have hload : Json.load r document =
      ((do let a ← r; finish; return a : Reader α) document.toList).map Prod.fst := rfl
  rw [hload, hwhole]
  rfl

end Accepts

/-! ### Strings -/

def letterEscapes : List (Char × Char) :=
  [('"', '"'), ('\\', '\\'), ('/', '/'), ('b', '\x08'), ('f', '\x0c'), ('n', '\n'), ('r', '\r'), ('t', '\t')]

def HexDigit (c : Char) (d : Nat) : Prop := d < 16 ∧ (c = Nat.digitChar d ∨ c = (Nat.digitChar d).toUpper)

inductive HexUnit : List Char → Nat → Prop where
  | digits {a b c d : Char} {i j k l : Nat} : HexDigit a i → HexDigit b j → HexDigit c k → HexDigit d l →
    HexUnit [a, b, c, d] (4096 * i + 256 * j + 16 * k + l)

inductive CharSpelled : Char → List Char → Prop where
  | plain {c : Char} : 0x20 ≤ c.toNat → c ≠ '"' → c ≠ '\\' → CharSpelled c [c]
  | letter {c l : Char} : (l, c) ∈ letterEscapes → CharSpelled c ['\\', l]
  | unit {c : Char} {h : List Char} : HexUnit h c.toNat → CharSpelled c ('\\' :: 'u' :: h)
  | pair {c : Char} {h k : List Char} {hi lo : Nat} : HexUnit h hi → HexUnit k lo → 0xD800 ≤ hi → hi < 0xDC00 →
    0xDC00 ≤ lo → lo < 0xE000 → c.toNat = 0x10000 + 0x400 * (hi - 0xD800) + (lo - 0xDC00) →
    CharSpelled c ('\\' :: 'u' :: (h ++ '\\' :: 'u' :: k))

inductive CharsSpelled : List Char → List Char → Prop where
  | nil : CharsSpelled [] []
  | cons {c : Char} {cs t ts : List Char} : CharSpelled c t → CharsSpelled cs ts → CharsSpelled (c :: cs) (t ++ ts)

def StringSpelled (x : String) (t : List Char) : Prop := ∃ body, CharsSpelled x.toList body ∧ t = '"' :: (body ++ ['"'])

section
variable {c : Char} {h t : List Char} {d n : Nat}

theorem HexDigit.value (hc : HexDigit c d) : hexDigit? c = some d := by
  have hall : ∀ d < 16, hexDigit? (Nat.digitChar d) = some d ∧ hexDigit? (Nat.digitChar d).toUpper = some d := by
    decide
  obtain ⟨hd, rfl | rfl⟩ := hc
  · exact (hall d hd).1
  · exact (hall d hd).2

theorem HexUnit.hexEscape (hh : HexUnit h n) (s : List Char) : hexEscape (h ++ s) = .ok (n, s) := by
  cases hh with
  | @digits a b c d i j k l ha hb hc hd =>
    have hdigits : hexDigits? [a, b, c, d] 0 = some (4096 * i + 256 * j + 16 * k + l) := by
      simp only [hexDigits?, ha.value, hb.value, hc.value, hd.value, Option.some.injEq]
      omega
    rw [Json.hexEscape, bind_ok rfl]
    simp only [List.cons_append, List.nil_append, hdigits]
    rfl

theorem HexUnit.unicodeEscape (hh : HexUnit h c.toNat) (s : List Char) : unicodeEscape (h ++ s) = .ok (c, s) := by
  have hvalid := c.valid
  have htrailing : isTrailing c.toNat = false := by
    simp only [isTrailing, decide_eq_false_iff_not]
    rcases hvalid with hlt | hgt <;> simp only [Char.toNat] <;> omega
  have hleading : isLeading c.toNat = false := by
    simp only [isLeading, decide_eq_false_iff_not]
    rcases hvalid with hlt | hgt <;> simp only [Char.toNat] <;> omega
  rw [Json.unicodeEscape, bind_ok (hh.hexEscape s)]
  simp only [htrailing, hleading, Char.ofNat_toNat]
  rfl

theorem unicodeEscape_pair {k : List Char} {hi lo : Nat} (hh : HexUnit h hi) (hk : HexUnit k lo) (hhi : 0xD800 ≤ hi)
    (hhi' : hi < 0xDC00) (hlo : 0xDC00 ≤ lo) (hlo' : lo < 0xE000)
    (hc : c.toNat = 0x10000 + 0x400 * (hi - 0xD800) + (lo - 0xDC00)) (s : List Char) :
    unicodeEscape (h ++ '\\' :: 'u' :: (k ++ s)) = .ok (c, s) := by
  have htrailing : isTrailing hi = false := by simp only [isTrailing, decide_eq_false_iff_not]; omega
  have hleading : isLeading hi = true := by simp only [isLeading, decide_eq_true_eq]; omega
  have htrailing' : isTrailing lo = true := by simp only [isTrailing, decide_eq_true_eq]; omega
  have hpair : surrogatePair hi lo = c := by
    have hcode : (hi - 0xD800) * 0x400 + (lo - 0xDC00) + 0x10000 = c.toNat := by omega
    rw [surrogatePair, hcode, Char.ofNat_toNat]
  rw [unicodeEscape, bind_ok (hh.hexEscape _)]
  simp only [htrailing, hleading]
  have hmark : pairMark '\\' ('\\' :: 'u' :: (k ++ s)) = .ok ((), 'u' :: (k ++ s)) := rfl
  have hmark' : pairMark 'u' ('u' :: (k ++ s)) = .ok ((), k ++ s) := rfl
  change (pairMark '\\' >>= _) _ = _
  rw [bind_ok hmark, bind_ok hmark', bind_ok (hk.hexEscape s)]
  simp only [htrailing', hpair]
  rfl

/-- A spelled character is read as itself, whichever spelling it has. -/
theorem CharSpelled.stringChars (ht : CharSpelled c t) (n : Nat) (s : List Char) :
    stringChars (n + 1) (t ++ s) = (do return c :: (← stringChars n) : Reader (List Char)) s := by
  cases ht with
  | plain hlow hquote hback =>
    have hnext : next (c :: s) = .ok (some c, s) := rfl
    rw [List.singleton_append, Json.stringChars, bind_ok hnext]
    refine congrFun ?_ s
    split
    · next h => cases h
    · next h => exact absurd (Option.some.inj h) hquote
    · next h => exact absurd (Option.some.inj h) hback
    · next h =>
      cases h
      rw [if_neg (Nat.not_lt.2 hlow)]
  | @letter l hl =>
    simp only [letterEscapes, List.mem_cons, Prod.mk.injEq, List.not_mem_nil, or_false] at hl
    rcases hl with ⟨rfl, rfl⟩ | ⟨rfl, rfl⟩ | ⟨rfl, rfl⟩ | ⟨rfl, rfl⟩ | ⟨rfl, rfl⟩ | ⟨rfl, rfl⟩ | ⟨rfl, rfl⟩ |
      ⟨rfl, rfl⟩ <;>
      rfl
  | @unit h hh =>
    have hescape : escape ('u' :: (h ++ s)) = .ok (c, s) := hh.unicodeEscape s
    exact bind_ok (f := fun c => (do return c :: (← Json.stringChars n) : Reader (List Char))) hescape
  | @pair h k hi lo hh hk hhi hhi' hlo hlo' hc =>
    have hescape : escape ('u' :: (h ++ '\\' :: 'u' :: (k ++ s))) = .ok (c, s) :=
      unicodeEscape_pair hh hk hhi hhi' hlo hlo' hc s
    rw [List.cons_append, List.cons_append, List.append_assoc]
    exact bind_ok (f := fun c => (do return c :: (← Json.stringChars n) : Reader (List Char))) hescape

theorem CharSpelled.ne_nil (ht : CharSpelled c t) : 1 ≤ t.length := by
  cases ht <;> simp

theorem CharsSpelled.length_le {cs : List Char} (ht : CharsSpelled cs t) : cs.length ≤ t.length := by
  induction ht with
  | nil => exact Nat.le_refl 0
  | cons hc _ ih =>
    have := hc.ne_nil
    rw [List.length_cons, List.length_append]
    omega

theorem CharsSpelled.stringChars {cs : List Char} (ht : CharsSpelled cs t) (hn : cs.length < n) (s : List Char) :
    stringChars n (t ++ '"' :: s) = .ok (cs, s) := by
  induction ht generalizing n with
  | nil =>
    obtain ⟨n, rfl⟩ : ∃ k, n = k + 1 := ⟨n - 1, by simp at hn; omega⟩
    rfl
  | cons hc _ ih =>
    obtain ⟨n, rfl⟩ : ∃ k, n = k + 1 := ⟨n - 1, by simp at hn; omega⟩
    rw [List.append_assoc, hc.stringChars, bind_ok (ih (Nat.lt_of_succ_lt_succ hn))]
    rfl

theorem StringSpelled.starts {x : String} (ht : StringSpelled x t) : ∃ s, t = '"' :: s := by
  obtain ⟨body, -, rfl⟩ := ht
  exact ⟨_, rfl⟩

theorem StringSpelled.string {x : String} (ht : StringSpelled x t) (s : List Char) : string (t ++ s) = .ok (x, s) := by
  obtain ⟨body, hbody, rfl⟩ := ht
  have hlen : x.toList.length < (body ++ '"' :: s).length := by
    have := hbody.length_le
    rw [List.length_append, List.length_cons]
    omega
  have hchars := bind_ok (f := fun cs => (return String.ofList cs : Reader String)) (hbody.stringChars hlen s)
  rw [String.ofList_toList] at hchars
  rw [List.cons_append, List.append_assoc, List.singleton_append]
  exact hchars

theorem StringSpelled.accepts {x : String} (ht : StringSpelled x t) : Accepts text t x := by
  refine .of_peek fun rest _ => ?_
  have h := ht.string rest
  obtain ⟨s, rfl⟩ := ht.starts
  exact h

/-- The compact spelling. -/
theorem stringSpelled_quote (x : String) : StringSpelled x (quote x).toList := by
  have hchar : ∀ c, CharSpelled c (escapeChar c) := by
    intro c
    unfold escapeChar
    split
    case h_8 hquote hback _ _ _ _ _ =>
      split
      · next hc =>
        have hdigit : ∀ d < 16, HexDigit (Nat.digitChar d) d := fun d hd => ⟨hd, .inl rfl⟩
        have hunit := HexUnit.digits (hdigit 0 (by decide)) (hdigit 0 (by decide)) (hdigit (c.toNat / 16) (by omega))
          (hdigit (c.toNat % 16) (by omega))
        have hvalue : 4096 * 0 + 256 * 0 + 16 * (c.toNat / 16) + c.toNat % 16 = c.toNat := by omega
        rw [hvalue] at hunit
        exact .unit hunit
      · next hc => exact .plain (Nat.le_of_not_lt hc) hquote hback
    all_goals exact .letter (by decide)
  have hchars : ∀ cs : List Char, CharsSpelled cs (cs.flatMap escapeChar) := by
    intro cs
    induction cs with
    | nil => exact .nil
    | cons c cs ih => exact .cons (hchar c) ih
  exact ⟨_, hchars x.toList, quote_toList x⟩

end

/-! ### Lists and objects -/

/-- What stands behind a part of a list or an object: blanks after the last one, or a comma and the others. -/
inductive Following {β : Type} (part : β → List Char → Prop) : List β → List Char → Prop where
  | last {w : List Char} : Blanks w → Following part [] w
  | comma {b : β} {bs : List β} {w w' t s : List Char} : Blanks w → Blanks w' → part b t → Following part bs s →
    Following part (b :: bs) (w ++ ',' :: (w' ++ (t ++ s)))

inductive Separated {β : Type} (part : β → List Char → Prop) : List β → List Char → Prop where
  | empty {w : List Char} : Blanks w → Separated part [] w
  | first {b : β} {bs : List β} {w t s : List Char} : Blanks w → part b t → Following part bs s →
    Separated part (b :: bs) (w ++ (t ++ s))

def ListText (ts : List (List Char)) (t : List Char) : Prop := ∃ s, Separated Eq ts s ∧ t = '[' :: (s ++ [']'])

def ObjectText {β : Type} (part : β → List Char → Prop) (bs : List β) (t : List Char) : Prop :=
  ∃ s, Separated part bs s ∧ t = '\x7b' :: (s ++ ['\x7d'])

def Member (key : List Char → Prop) (value t : List Char) : Prop :=
  ∃ k w w', key k ∧ Blanks w ∧ Blanks w' ∧ t = k ++ (w ++ ':' :: (w' ++ value))

/-- A text that can stand in a list: it starts with no blank, and not as the end of the list does. -/
def Opens (t : List Char) : Prop := ∃ c s, t = c :: s ∧ isBlank c = false ∧ c ≠ ']'

section
variable {β : Type} {part : β → List Char → Prop} {b : β} {bs : List β} {s : List Char}

/-- No number goes on behind a part. -/
theorem Following.endsNumber (h : Following part bs s) {close : Char} (hclose : close = ']' ∨ close = '\x7d')
    (rest : List Char) : EndsNumber (s ++ close :: rest) := by
  have hends : EndsNumber (close :: rest) := by
    rcases hclose with rfl | rfl <;> exact endsNumber_cons (by decide) _
  cases h with
  | last hw => exact hw.endsNumber_append hends
  | comma hw =>
    rw [List.append_assoc]
    exact hw.endsNumber_append (endsNumber_cons (by decide) _)

theorem Following.length_le (h : Following part bs s) : bs.length ≤ s.length := by
  induction h with
  | last => exact Nat.zero_le _
  | comma _ _ _ _ ih =>
    simp only [List.length_cons, List.length_append]
    omega

theorem Separated.length_le (h : Separated part bs s) (hpart : ∀ b t, part b t → 1 ≤ t.length) :
    bs.length ≤ s.length := by
  cases h with
  | empty => exact Nat.zero_le _
  | @first b bs w t s _ ht hfollow =>
    have := hpart b t ht
    have := hfollow.length_le
    simp only [List.length_cons, List.length_append]
    omega

theorem Following.length_part (h : Following part bs s) (hb : b ∈ bs) : ∃ t, part b t ∧ t.length ≤ s.length := by
  induction h with
  | last => cases hb
  | @comma c cs w w' t s _ _ ht _ ih =>
    rcases List.mem_cons.1 hb with rfl | hb
    · refine ⟨t, ht, ?_⟩
      simp only [List.length_cons, List.length_append]
      omega
    · obtain ⟨u, hu, hle⟩ := ih hb
      refine ⟨u, hu, ?_⟩
      simp only [List.length_cons, List.length_append]
      omega

theorem Separated.length_part (h : Separated part bs s) (hb : b ∈ bs) : ∃ t, part b t ∧ t.length ≤ s.length := by
  cases h with
  | empty => cases hb
  | @first c cs w t s _ ht hs =>
    rcases List.mem_cons.1 hb with rfl | hb
    · refine ⟨t, ht, ?_⟩
      simp only [List.length_append]
      omega
    · obtain ⟨u, hu, hle⟩ := hs.length_part hb
      refine ⟨u, hu, ?_⟩
      simp only [List.length_append]
      omega

end

theorem Member.length_pos {key : List Char → Prop} {value t : List Char} (ht : Member key value t) : 1 ≤ t.length := by
  obtain ⟨k, w, w', -, -, -, rfl⟩ := ht
  simp only [List.length_append, List.length_cons]
  omega

end WhileLang.Json
