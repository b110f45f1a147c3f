import WhileLang.Json.Scalar
import WhileLang.Json.Write
import WhileLang.Proofs.ValueText

/-! The tokens of compact documents, read back. A string is found again whatever
characters it has and whatever comes behind it. A number is found again where
something comes behind it that cannot be a part of it; its digits are those of
the shortest decimal, so the rule against leading zeros lets them pass. -/

namespace WhileLang.Json

section
variable {α β : Type} {r : Reader α} {f : α → Reader β} {s s' : List Char} {a : α} {e : ReadError}

theorem bind_ok (h : r s = .ok (a, s')) : (r >>= f) s = f a s' := by
  change StateT.bind r f s = _
  unfold StateT.bind
  rw [h]
  rfl

theorem bind_error (h : r s = .error e) : (r >>= f) s = .error e := by
  change StateT.bind r f s = _
  unfold StateT.bind
  rw [h]
  rfl

end

theorem peek_cons {c : Char} (hc : isBlank c = false) (s : List Char) : peek (c :: s) = .ok (some c, c :: s) := by
  simp [peek, hc]

/-! ### Strings -/

section
variable {cs : List Char} {n : Nat}

theorem escapeChar_ne_nil (c : Char) : escapeChar c ≠ [] := by
  unfold escapeChar
  split
  case h_8 => split <;> simp
  all_goals simp

theorem length_le_flatMap_escapeChar (cs : List Char) : cs.length ≤ (cs.flatMap escapeChar).length := by
  induction cs with
  | nil => exact Nat.le_refl 0
  | cons c cs ih =>
    have hc := List.length_pos_iff.2 (escapeChar_ne_nil c)
    rw [List.flatMap_cons, List.length_append, List.length_cons]
    omega

/-- The two digits of a control character. -/
theorem hexEscape_control {k : Nat} (hk : k < 0x20) (s : List Char) :
    hexEscape ('0' :: '0' :: Nat.digitChar (k / 16) :: Nat.digitChar (k % 16) :: s) = .ok (k, s) := by
  have hdigits : ∀ k < 0x20, hexDigits? ['0', '0', Nat.digitChar (k / 16), Nat.digitChar (k % 16)] 0 = some k := by
    decide
  rw [hexEscape, bind_ok rfl]
  simp only [hdigits k hk]
  rfl

theorem unicodeEscape_control {c : Char} (hc : c.toNat < 0x20) (s : List Char) :
    unicodeEscape ('0' :: '0' :: Nat.digitChar (c.toNat / 16) :: Nat.digitChar (c.toNat % 16) :: s) = .ok (c, s) := by
  have htrailing : isTrailing c.toNat = false := by simp [isTrailing]; omega
  have hleading : isLeading c.toNat = false := by simp [isLeading]; omega
  rw [unicodeEscape, bind_ok (hexEscape_control hc s)]
  simp only [htrailing, hleading, Char.ofNat_toNat]
  rfl

/-- A written character is read as itself. -/
theorem stringChars_escapeChar (n : Nat) (c : Char) (s : List Char) :
    stringChars (n + 1) (escapeChar c ++ s) = (do return c :: (← stringChars n) : Reader (List Char)) s := by
  unfold escapeChar
  split
  case h_8 hquote hback _ _ _ _ _ =>
    split
    · next hc =>
      have hescape : escape ('u' :: '0' :: '0' :: Nat.digitChar (c.toNat / 16) :: Nat.digitChar (c.toNat % 16) :: s) =
          .ok (c, s) := unicodeEscape_control hc s
      exact bind_ok (f := fun c => (do return c :: (← stringChars n) : Reader (List Char))) hescape
    · next hc =>
      have hnext : next (c :: s) = .ok (some c, s) := rfl
      rw [List.singleton_append, stringChars, bind_ok hnext]
      refine congrFun ?_ s
      split
      · next h => cases h
      · next h => exact absurd (Option.some.inj h) hquote
      · next h => exact absurd (Option.some.inj h) hback
      · next d _ _ h =>
        cases h
        rw [if_neg hc]
  all_goals rfl

theorem stringChars_flatMap (rest : List Char) (h : cs.length < n) :
    stringChars n (cs.flatMap escapeChar ++ '"' :: rest) = .ok (cs, rest) := by
  induction cs generalizing n with
  | nil =>
    obtain ⟨n, rfl⟩ : ∃ k, n = k + 1 := ⟨n - 1, by simp at h; omega⟩
    rfl
  | cons c cs ih =>
    obtain ⟨n, rfl⟩ : ∃ k, n = k + 1 := ⟨n - 1, by simp at h; omega⟩
    rw [List.flatMap_cons, List.append_assoc, stringChars_escapeChar,
      bind_ok (ih (Nat.lt_of_succ_lt_succ h))]
    rfl

theorem quote_toList (x : String) : (quote x).toList = '"' :: (x.toList.flatMap escapeChar ++ ['"']) := by
  rw [quote, String.toList_ofList]

theorem string_quote (x : String) (rest : List Char) : string ((quote x).toList ++ rest) = .ok (x, rest) := by
  have hlen : x.toList.length < (x.toList.flatMap escapeChar ++ '"' :: rest).length := by
    have := length_le_flatMap_escapeChar x.toList
    rw [List.length_append, List.length_cons]
    omega
  rw [quote_toList, List.cons_append, List.append_assoc, List.singleton_append]
  have hchars := bind_ok (f := fun cs => (return String.ofList cs : Reader String)) (stringChars_flatMap rest hlen)
  rw [String.ofList_toList] at hchars
  exact hchars

end

/-! ### Numbers -/

/-- What may follow a number: nothing, or a character that is no part of one. -/
def EndsNumber (rest : List Char) : Prop :=
  ∀ c ∈ rest.head?, isDigit c = false ∧ c ≠ '.' ∧ c ≠ 'e' ∧ c ≠ 'E'

section
variable {n : Nat} {rest : List Char} {atEnd : ReadError}

theorem isDigit_of_mem_toDigits {c : Char} (hc : c ∈ Nat.toDigits 10 n) : isDigit c = true := by
  have h := Nat.isDigit_of_mem_toDigits (by decide) (by decide) hc
  simpa [isDigit, Char.isDigit, Char.le_def] using h

/-- A decimal has no leading zero. -/
theorem head_toDigits (hn : 0 < n) : ∀ c ∈ (Nat.toDigits 10 n).head?, c ≠ '0' := by
  induction n using Nat.strongRecOn with
  | ind n ih =>
    by_cases h : n < 10
    · have hdigit : ∀ d < 10, 0 < d → Nat.digitChar d ≠ '0' := by decide
      rw [Nat.toDigits_of_lt_base h]
      simpa using hdigit n h hn
    · obtain ⟨c, cs, hcs⟩ := List.exists_cons_of_ne_nil (Nat.toDigits_ne_nil (b := 10) (n := n / 10))
      have hhead := ih (n / 10) (by omega) (by omega)
      rw [Nat.toDigits_of_base_le (by decide) (Nat.le_of_not_lt h)]
      rwa [hcs] at hhead ⊢

theorem digits_toDigits (hrest : EndsNumber rest) :
    digits (Nat.toDigits 10 n ++ rest) = .ok (Nat.toDigits 10 n, rest) := by
  have hall : ∀ c ∈ Nat.toDigits 10 n, isDigit c = true := fun c hc => isDigit_of_mem_toDigits hc
  have htake : rest.takeWhile isDigit = [] ∧ rest.dropWhile isDigit = rest := by
    cases rest with
    | nil => exact ⟨rfl, rfl⟩
    | cons c rest => simp [(hrest c rfl).1]
  rw [digits, List.takeWhile_append_of_pos hall, List.dropWhile_append_of_pos hall, htake.1, htake.2,
    List.append_nil]

theorem someDigits_toDigits (hrest : EndsNumber rest) :
    someDigits atEnd (Nat.toDigits 10 n ++ rest) = .ok (Nat.toDigits 10 n, rest) := by
  obtain ⟨c, cs, hcs⟩ := List.exists_cons_of_ne_nil (Nat.toDigits_ne_nil (b := 10) (n := n))
  have hc : isDigit c = true := isDigit_of_mem_toDigits (n := n) (by simp [hcs])
  have hdigits := digits_toDigits (n := n) hrest
  rw [hcs] at hdigits ⊢
  rw [someDigits, bind_ok rfl]
  simp only [List.cons_append, List.head?_cons, hc]
  exact hdigits

theorem wholeDigits_toDigits (hrest : EndsNumber rest) :
    wholeDigits atEnd (Nat.toDigits 10 n ++ rest) = .ok (Nat.toDigits 10 n, rest) := by
  rw [wholeDigits, bind_ok (someDigits_toDigits hrest)]
  rcases Nat.eq_zero_or_pos n with rfl | hn
  · rfl
  · refine congrFun (?_ : _ = (return Nat.toDigits 10 n : Reader (List Char))) rest
    split
    · next h => rw [h]
    · next h => exact absurd rfl (head_toDigits hn '0' (by rw [h]; rfl))
    · rfl

theorem fractionPart_none (hrest : EndsNumber rest) : fractionPart atEnd rest = .ok (none, rest) := by
  cases rest with
  | nil => rfl
  | cons c rest =>
    rw [fractionPart, bind_ok rfl]
    refine congrFun (?_ : _ = (return none : Reader (Option (List Char)))) (c :: rest)
    split
    · next h => exact absurd (List.cons.inj h).1 (hrest c rfl).2.1
    · rfl

theorem exponentPart_none (hrest : EndsNumber rest) : exponentPart atEnd rest = .ok (none, rest) := by
  cases rest with
  | nil => rfl
  | cons c rest =>
    obtain ⟨-, -, he, hE⟩ := hrest c rfl
    rw [exponentPart, bind_ok rfl]
    simp only [he, hE, or_self]
    rfl

/-- The part of a literal behind its sign. -/
theorem literal_rest (negative : Bool) (hrest : EndsNumber rest) :
    (do
      let whole ← wholeDigits atEnd
      let fraction ← fractionPart atEnd
      let exponent ← exponentPart atEnd
      return ⟨negative, whole, fraction, exponent⟩ : Reader Literal) (Nat.toDigits 10 n ++ rest) =
      .ok (⟨negative, Nat.toDigits 10 n, none, none⟩, rest) := by
  rw [bind_ok (wholeDigits_toDigits hrest), bind_ok (fractionPart_none hrest), bind_ok (exponentPart_none hrest)]
  rfl

theorem minus_toDigits (n : Nat) (rest : List Char) :
    minus (Nat.toDigits 10 n ++ rest) = .ok (false, Nat.toDigits 10 n ++ rest) := by
  rw [minus, bind_ok rfl]
  refine congrFun (?_ : _ = (return false : Reader Bool)) _
  split
  · next h =>
    obtain ⟨c, cs, hcs⟩ := List.exists_cons_of_ne_nil (Nat.toDigits_ne_nil (b := 10) (n := n))
    have hc : isDigit c = true := isDigit_of_mem_toDigits (n := n) (by simp [hcs])
    rw [hcs, List.cons_append] at h
    rw [(List.cons.inj h).1] at hc
    exact absurd hc (by decide)
  · rfl

theorem literal_ofNat (n : Nat) (hrest : EndsNumber rest) : literal atEnd (Nat.toDigits 10 n ++ rest) =
    .ok (⟨false, Nat.toDigits 10 n, none, none⟩, rest) := by
  rw [literal, bind_ok (minus_toDigits n rest), literal_rest false hrest]

theorem literal_neg (n : Nat) (hrest : EndsNumber rest) : literal atEnd ('-' :: (Nat.toDigits 10 n ++ rest)) =
    .ok (⟨true, Nat.toDigits 10 n, none, none⟩, rest) := by
  have hminus : minus ('-' :: (Nat.toDigits 10 n ++ rest)) = .ok (true, Nat.toDigits 10 n ++ rest) := rfl
  rw [literal, bind_ok hminus, literal_rest true hrest]

theorem natOfDigits_toDigits (n : Nat) : natOfDigits (Nat.toDigits 10 n) = n := Nat.ofDigitChars_ten_toDigits

theorem ofInt_ofNat_toList (n : Nat) : (Text.ofInt (.ofNat n)).toList = Nat.toDigits 10 n := String.toList_ofList

theorem ofInt_negSucc_toList (n : Nat) : (Text.ofInt (.negSucc n)).toList = '-' :: Nat.toDigits 10 (n + 1) := by
  simp [Text.ofInt, Text.ofNat]

/-- The integers that are read exactly. -/
theorem numeral_ofInt {i : Int} (hlo : -0x8000000000000000 ≤ i) (hhi : i ≤ maxNatural) (hrest : EndsNumber rest) :
    numeral ((Text.ofInt i).toList ++ rest) = .ok (.int i, rest) := by
  cases i with
  | ofNat k =>
    have hk : k ≤ maxNatural := Int.ofNat_le.1 hhi
    rw [ofInt_ofNat_toList, numeral, bind_ok (literal_ofNat k hrest)]
    simp only [Literal.numeral, natOfDigits_toDigits, if_pos hk]
    rfl
  | negSucc k =>
    have hk : 1 ≤ k + 1 ∧ k + 1 ≤ 0x8000000000000000 := by omega
    rw [ofInt_negSucc_toList, List.cons_append, numeral, bind_ok (literal_neg (k + 1) hrest)]
    simp only [Literal.numeral, natOfDigits_toDigits, if_pos hk]
    rfl

theorem isBlank_of_startsNumber {c : Char} (hc : startsNumber c = true) : isBlank c = false := by
  simp only [startsNumber, isDigit, isBlank, Char.le_def, Bool.or_eq_true, beq_iff_eq, decide_eq_true_eq] at hc ⊢
  rcases hc with rfl | ⟨hlo, -⟩
  · rfl
  · simp only [Bool.or_eq_false_iff, beq_eq_false_iff_ne]
    refine ⟨⟨⟨?_, ?_⟩, ?_⟩, ?_⟩ <;> rintro rfl <;> exact absurd hlo (by decide)

/-- The first character of an integer shows that it is one, and is no blank. -/
theorem ofInt_toList (i : Int) :
    ∃ c cs, (Text.ofInt i).toList = c :: cs ∧ startsNumber c = true ∧ isBlank c = false := by
  cases i with
  | ofNat k =>
    obtain ⟨c, cs, hcs⟩ := List.exists_cons_of_ne_nil (Nat.toDigits_ne_nil (b := 10) (n := k))
    have hc : startsNumber c = true := by simp [startsNumber, isDigit_of_mem_toDigits (n := k) (c := c) (by simp [hcs])]
    exact ⟨c, cs, (ofInt_ofNat_toList k).trans hcs, hc, isBlank_of_startsNumber hc⟩
  | negSucc k => exact ⟨'-', Nat.toDigits 10 (k + 1), ofInt_negSucc_toList k, rfl, rfl⟩

theorem integer_ofInt {α : Type} {wanted : String} {narrow : Int → Option α} {i : Int} {a : α}
    (hlo : -0x8000000000000000 ≤ i) (hhi : i ≤ maxNatural) (ha : narrow i = some a) (hrest : EndsNumber rest) :
    integer wanted narrow ((Text.ofInt i).toList ++ rest) = .ok (a, rest) := by
  obtain ⟨c, cs, hcs, hc, hblank⟩ := ofInt_toList i
  have hnumeral := numeral_ofInt hlo hhi hrest
  rw [hcs, List.cons_append] at hnumeral ⊢
  rw [integer, bind_ok (peek_cons hblank _)]
  simp only [hc, if_true]
  rw [bind_ok hnumeral]
  simp only [ha]
  rfl

theorem int64_text (n : Int64) (hrest : EndsNumber rest) :
    int64 ((Value.num n).text.toList ++ rest) = .ok (n, rest) := by
  have hlo := n.le_toInt
  have hhi := n.toInt_lt
  exact integer_ofInt (by omega) (by unfold maxNatural; omega) (word?_toInt n) hrest

theorem boolean_text (b : Bool) (rest : List Char) : boolean ((Value.bool b).text.toList ++ rest) = .ok (b, rest) := by
  cases b <;> rfl

end

end WhileLang.Json
