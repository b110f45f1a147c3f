import WhileLang.Code.Meaning
import WhileLang.Expr

/-! Values as texts. A generated program has only texts and reads them again at
every operator, so a number must read as that number, a boolean as that boolean,
and neither as the other. -/

namespace WhileLang

theorem word?_toInt (n : Int64) : word? n.toInt = some n := by
  have hlo := n.le_toInt
  have hhi := n.toInt_lt
  unfold word?
  rw [if_pos (by omega), Int64.ofInt_toInt]

namespace Code

theorem readDigits?_toDigits (n : Nat) : readDigits? (Nat.toDigits 10 n) = some n := by
  have hdigits : (Nat.toDigits 10 n).all Char.isDigit = true :=
    List.all_eq_true.2 fun c hc => Nat.isDigit_of_mem_toDigits (by decide) (by decide) hc
  unfold readDigits?
  rw [if_neg (by simp [Nat.toDigits_ne_nil]), if_pos hdigits, Nat.ofDigitChars_ten_toDigits]

/-- A sign is no digit, so a text that starts with a digit is read as a whole. -/
theorem readNumber?_ofNat (n : Nat) : readNumber? (Text.ofNat n) = word? n := by
  have hread := readDigits?_toDigits n
  have hdigit : ∀ c ∈ Nat.toDigits 10 n, c.isDigit = true := fun c hc =>
    Nat.isDigit_of_mem_toDigits (by decide) (by decide) hc
  unfold readNumber? Text.ofNat
  rw [String.toList_ofList]
  split
  · next ds h => exact absurd (hdigit '-' (by simp [h])) (by decide)
  · next ds h => exact absurd (hdigit '+' (by simp [h])) (by decide)
  · rw [hread, Option.bind_some]

theorem readNumber?_minus {s : String} {ds : List Char} (h : s.toList = '-' :: ds) :
    readNumber? s = (readDigits? ds).bind fun n => word? (-n) := by
  unfold readNumber?
  split
  · next ds' h' => rw [h] at h'; cases h'; rfl
  · next ds' h' => rw [h] at h'; simp at h'
  · next hminus _ => exact absurd h (hminus ds)

theorem readNumber?_ofInt (i : Int) : readNumber? (Text.ofInt i) = word? i := by
  cases i with
  | ofNat k => rw [Text.ofInt, readNumber?_ofNat, Int.ofNat_eq_natCast]
  | negSucc k =>
    have hlist : ("-" ++ Text.ofNat (k + 1)).toList = '-' :: Nat.toDigits 10 (k + 1) := by
      simp [Text.ofNat]
    rw [Text.ofInt, readNumber?_minus hlist, readDigits?_toDigits, Option.bind_some, Int.negSucc_eq]
    rfl

theorem readNumber?_num (n : Int64) : readNumber? (Value.num n).text = some n := by
  rw [Value.text, readNumber?_ofInt, word?_toInt]

theorem readNumber?_bool (b : Bool) : readNumber? (Value.bool b).text = none := by
  cases b <;> decide

theorem readTruth?_bool (b : Bool) : readTruth? (Value.bool b).text = some b := by
  cases b <;> decide

theorem readTruth?_num (n : Int64) : readTruth? (Value.num n).text = none := by
  have hne : ∀ b, (Value.num n).text ≠ (Value.bool b).text := by
    intro b h
    have := readNumber?_num n
    rw [h, readNumber?_bool] at this
    simp at this
  have ht : (Value.num n).text ≠ "true" := hne true
  have hf : (Value.num n).text ≠ "false" := hne false
  unfold readTruth?
  rw [if_neg ht, if_neg hf]

end Code

/-- Literals of the two types share one form, but no two values share a text. -/
theorem Value.text_injective {v w : Value} (h : v.text = w.text) : v = w := by
  have hn := congrArg Code.readNumber? h
  have hb := congrArg Code.readTruth? h
  cases v with
  | num m =>
    cases w with
    | num n => simpa [Code.readNumber?_num] using hn
    | bool b => simp [Code.readNumber?_num, Code.readNumber?_bool] at hn
  | bool a =>
    cases w with
    | num n => simp [Code.readNumber?_num, Code.readNumber?_bool] at hn
    | bool b => simpa [Code.readTruth?_bool] using hb

end WhileLang
