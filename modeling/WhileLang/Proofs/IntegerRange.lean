import WhileLang.Proofs.ReadBack

/-! Integers in documents. An integer of any length is read as itself, or refused: where
it has no place in the word, there is none that is taken in its stead. What is too
long for any word is read as a binary64 number, which is refused where an integer has
to stand, so its rounding is never seen. -/

namespace WhileLang

/-! ### Words -/

theorem word?_eq_some_iff {i : Int} {n : Int64} : word? i = some n ↔ n.toInt = i := by
  constructor
  · intro h
    unfold word? at h
    split at h
    · cases h
      exact Int64.toInt_ofInt_of_le (by omega) (by omega)
    · cases h
  · rintro rfl
    exact word?_toInt n

theorem unsigned?_eq_some_iff {i : Int} {n : UInt64} : unsigned? i = some n ↔ (n.toNat : Int) = i := by
  unfold unsigned?
  constructor
  · intro h
    split at h
    · cases h
      rw [UInt64.toNat_ofNat_of_lt' (by simp only [UInt64.size]; omega)]
      omega
    · cases h
  · rintro rfl
    have hn := n.toNat_lt
    rw [if_pos (by omega), Int.toNat_natCast, UInt64.ofNat_toNat]

namespace Json

/-! ### Numbers -/

section
variable {α : Type} {i : Int} {rest : List Char} {wanted : String} {narrow : Int → Option α}

/-- A number that is no exact integer is a binary64 number, or too large. -/
theorem Literal.real_cases (l : Literal) : (∃ d, l.real = .ok (.real d)) ∨ ∃ e, l.real = .error e := by
  unfold Literal.real
  simp only
  split
  · exact .inl ⟨_, rfl⟩
  · exact .inr ⟨_, rfl⟩

/-- Beyond 64 bits there are no exact integers. -/
theorem numeral_beyond (h : ¬ (-0x8000000000000000 ≤ i ∧ i ≤ maxNatural)) (hrest : EndsNumber rest) :
    (∃ d, numeral ((Text.ofInt i).toList ++ rest) = .ok (.real d, rest)) ∨
    ∃ e, numeral ((Text.ofInt i).toList ++ rest) = .error e := by
  have hreal : ∀ {l : Literal} {s : List Char}, literal (.ended .value) s = .ok (l, rest) → l.numeral = l.real →
      (∃ d, numeral s = .ok (.real d, rest)) ∨ ∃ e, numeral s = .error e := by
    intro l s hl hnumeral
    rw [numeral, bind_ok hl, hnumeral]
    obtain ⟨d, hd⟩ | ⟨e, he⟩ := l.real_cases
    · exact .inl ⟨d, by rw [hd]; rfl⟩
    · exact .inr ⟨e, by rw [he]; rfl⟩
  cases i with
  | ofNat k =>
    have hk : ¬ k ≤ maxNatural := fun hk => h ⟨by simp only [Int.ofNat_eq_natCast]; omega, Int.ofNat_le.2 hk⟩
    rw [ofInt_ofNat_toList]
    refine hreal (literal_ofNat k hrest) ?_
    simp only [Literal.numeral, natOfDigits_toDigits, if_neg hk]
    rfl
  | negSucc k =>
    have hk : ¬ (1 ≤ k + 1 ∧ k + 1 ≤ 0x8000000000000000) := by unfold maxNatural at h; omega
    rw [ofInt_negSucc_toList]
    refine hreal (literal_neg (k + 1) hrest) ?_
    simp only [Literal.numeral, natOfDigits_toDigits, if_neg hk]
    rfl

/-- What has no place in the word is refused, in whichever way it was read. -/
theorem integer_refuses (h : narrow i = none) (hrest : EndsNumber rest) :
    ∃ e, integer wanted narrow ((Text.ofInt i).toList ++ rest) = .error e := by
  obtain ⟨c, cs, hcs, hc, hblank⟩ := ofInt_toList i
  have hexact := fun hlo hhi => numeral_ofInt (i := i) hlo hhi hrest
  have hbeyond := fun hi => numeral_beyond (i := i) hi hrest
  rw [hcs, List.cons_append] at hexact hbeyond ⊢
  rw [integer, bind_ok (peek_cons hblank _)]
  simp only [hc, if_true]
  by_cases hi : -0x8000000000000000 ≤ i ∧ i ≤ maxNatural
  · rw [bind_ok (hexact hi.1 hi.2)]
    simp only [h]
    exact ⟨_, rfl⟩
  · obtain ⟨d, hd⟩ | ⟨e, he⟩ := hbeyond hi
    · rw [bind_ok hd]
      exact ⟨_, rfl⟩
    · exact ⟨e, bind_error he⟩

end

/-! ### Documents -/

theorem object_one {x opening : String} (h : opening = "\x7b" ++ quote x ++ ":") (v : String) :
    opening ++ v ++ "\x7d" = object [(x, v)] := by
  refine String.toList_injective ?_
  rw [object_one_toList, h]
  simp

/-- What is wrong with the only member is wrong with the record. -/
theorem record_one_error {δ α : Type} {l : Layout δ α} {f : Field δ} {wanted x v : String} {e : ReadError}
    (hf : l.field? x = some f) (hblank : f.filled l.blank = false)
    (he : f.read l.blank (v.toList ++ ['\x7d']) = .error e) :
    record wanted (some l) (object [(x, v)]).toList = .error e := by
  have hopen : ∀ s, record wanted (some l) ('\x7b' :: s) = (l.members s.length true l.blank >>= l.finished) s :=
    fun s => rfl
  obtain ⟨n, hn⟩ : ∃ n, ((quote x).toList ++ ':' :: (v.toList ++ ['\x7d'])).length = n + 1 := by
    refine Nat.exists_eq_add_one.2 ?_
    simp only [List.length_append, List.length_cons]
    omega
  have hkey := nextKey_quote x (':' :: (v.toList ++ ['\x7d']))
  have hmember := Layout.members_key (l := l) (n := n) (d := l.blank) hkey hf hblank
  rw [object_one_toList, hopen, hn]
  exact bind_error (hmember.trans (bind_error he))

theorem optional_ofInt {α : Type} (r : Reader α) (i : Int) (rest : List Char) :
    optional r ((Text.ofInt i).toList ++ rest) =
      (do return some (← r) : Reader (Option α)) ((Text.ofInt i).toList ++ rest) := by
  obtain ⟨c, cs, hcs, hc, hblank⟩ := ofInt_toList i
  rw [hcs, List.cons_append, optional, bind_ok (peek_cons hblank _)]
  refine congrFun ?_ _
  split
  · next h =>
    cases h
    exact absurd hc (by decide)
  · rfl

end Json

open Json

section
variable {n : Int}

theorem Expr.load_number_some {v : Int64} (h : word? n = some v) :
    Expr.load (object [("Number", Text.ofInt n)]) = .ok (.lit (.num v)) := by
  have hv := word?_eq_some_iff.1 h
  have hlo := v.le_toInt
  have hhi := v.toInt_lt
  have hnumber : Reads int64 (Text.ofInt n).toList True v :=
    .of_ok fun rest hrest => integer_ofInt (by omega) (by unfold maxNatural; omega) h hrest
  exact (Reads.leaf (k := .number) (fun _ => hnumber.map fun v => Expr.lit (.num v)) maxLevels).load

theorem Expr.load_number_none (h : word? n = none) : ∃ e, Expr.load (object [("Number", Text.ofInt n)]) = .error e := by
  obtain ⟨e, he⟩ : ∃ e, int64 ((Text.ofInt n).toList ++ ['\x7d']) = .error e :=
    integer_refuses h (endsNumber_cons (by decide) [])
  refine ⟨e, load_error ?_⟩
  rw [object_one_toList]
  exact (tagged_name (Kind.find_name .number) _).trans (bind_error (bind_error he))

theorem Config.load_limit_some {v : UInt64} (h : unsigned? n = some v) :
    Config.load (object [("step_limit", Text.ofInt n)]) = .ok ⟨some v⟩ := by
  have hv := unsigned?_eq_some_iff.1 h
  have hhi := v.toNat_lt
  have hlimit : Reads (optional uint64) (Text.ofInt n).toList True (some v) := by
    refine .of_ok fun rest hrest => ?_
    rw [optional_ofInt, uint64, bind_ok (integer_ofInt (by omega) (by unfold maxNatural; omega) h hrest)]
    rfl
  have hfills : configLayout.Fills none [("step_limit", Text.ofInt n)] (True ∧ True) (some (some v)) :=
    .field rfl rfl (hlimit.map some) .done
  have hrecord : Reads config (object [("step_limit", Text.ofInt n)]).toList (True ∧ True) ⟨some v⟩ :=
    .record hfills rfl
  exact hrecord.load.trans (if_pos ⟨trivial, trivial⟩)

theorem Config.load_limit_none (h : unsigned? n = none) :
    ∃ e, Config.load (object [("step_limit", Text.ofInt n)]) = .error e := by
  obtain ⟨e, he⟩ : ∃ e, uint64 ((Text.ofInt n).toList ++ ['\x7d']) = .error e :=
    integer_refuses h (endsNumber_cons (by decide) [])
  refine ⟨e, load_error (record_one_error (x := "step_limit") rfl rfl (bind_error ?_))⟩
  rw [optional_ofInt]
  exact bind_error he

end

/-- An answer that a word decides: it is made of the word, and an error where there is none. -/
theorem ok_iff_of_word {α β : Type} {w : Option α} {f : α → β} {o : Except ReadError β} {b : β}
    (hsome : ∀ a, w = some a → o = .ok (f a)) (hnone : w = none → ∃ e, o = .error e) :
    o = .ok b ↔ ∃ a, w = some a ∧ b = f a := by
  constructor
  · rintro rfl
    cases w with
    | none =>
      obtain ⟨e, he⟩ := hnone rfl
      cases he
    | some a =>
      cases hsome a rfl
      exact ⟨a, rfl, rfl⟩
  · rintro ⟨a, ha, rfl⟩
    exact hsome a ha

/-- An integer in a document is read as itself or refused, and its range alone decides which. -/
theorem integers_read_exactly_or_refused (n : Int) :
    (∀ e, Expr.load ("\x7b\"Number\":" ++ Text.ofInt n ++ "\x7d") = .ok e ↔
      ∃ v : Int64, v.toInt = n ∧ e = .lit (.num v)) ∧
    ((∃ e, Expr.load ("\x7b\"Number\":" ++ Text.ofInt n ++ "\x7d") = .ok e) ↔
      -9223372036854775808 ≤ n ∧ n ≤ 9223372036854775807) ∧
    (∀ c, Config.load ("\x7b\"step_limit\":" ++ Text.ofInt n ++ "\x7d") = .ok c ↔
      ∃ v : UInt64, (v.toNat : Int) = n ∧ c = ⟨some v⟩) ∧
    ((∃ c, Config.load ("\x7b\"step_limit\":" ++ Text.ofInt n ++ "\x7d") = .ok c) ↔
      0 ≤ n ∧ n ≤ 18446744073709551615) := by
  rw [object_one (x := "Number") (by decide), object_one (x := "step_limit") (by decide)]
  have hnumber : ∀ e, Expr.load (object [("Number", Text.ofInt n)]) = .ok e ↔
      ∃ v : Int64, v.toInt = n ∧ e = .lit (.num v) := by
    intro e
    simp only [ok_iff_of_word (fun _ => Expr.load_number_some) Expr.load_number_none, word?_eq_some_iff]
  have hlimit : ∀ c, Config.load (object [("step_limit", Text.ofInt n)]) = .ok c ↔
      ∃ v : UInt64, (v.toNat : Int) = n ∧ c = ⟨some v⟩ := by
    intro c
    simp only [ok_iff_of_word (fun _ => Config.load_limit_some) Config.load_limit_none, unsigned?_eq_some_iff]
  refine ⟨hnumber, ?_, hlimit, ?_⟩
  · constructor
    · rintro ⟨e, he⟩
      obtain ⟨v, rfl, -⟩ := (hnumber e).1 he
      have hlo := v.le_toInt
      have hhi := v.toInt_lt
      omega
    · rintro ⟨hlo, hhi⟩
      exact ⟨_, (hnumber _).2 ⟨.ofInt n, Int64.toInt_ofInt_of_le (by omega) (by omega), rfl⟩⟩
  · constructor
    · rintro ⟨c, hc⟩
      obtain ⟨v, rfl, -⟩ := (hlimit c).1 hc
      have hhi := v.toNat_lt
      omega
    · rintro ⟨hlo, hhi⟩
      have hword : ((UInt64.ofNat n.toNat).toNat : Int) = n := by
        rw [UInt64.toNat_ofNat_of_lt' (by simp only [UInt64.size]; omega)]
        omega
      exact ⟨_, (hlimit _).2 ⟨_, hword, rfl⟩⟩

end WhileLang
