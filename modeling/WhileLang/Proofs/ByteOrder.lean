import WhileLang.Dict

/-! The order of names. A string is compared by its characters, and these by their code
points; its UTF-8 bytes come in the same order. A character takes one to four bytes. The first
one says how many, and more bytes mean a larger code point. Where two characters take
equally many, their code points are written in base 64, the highest digit first. -/

namespace WhileLang

def utf8 (x : String) : List UInt8 := x.toUTF8.data.toList

theorem utf8_eq_flatMap (x : String) : utf8 x = x.toList.flatMap String.utf8EncodeChar := by
  have hbytes : x.toByteArray = x.toList.utf8Encode := by
    rw [← String.toByteArray_ofList, String.ofList_toList]
  rw [utf8, String.toUTF8_eq_toByteArray, hbytes]
  simp [List.utf8Encode]

/-- A code for numbers below `bound`: of two different ones the smaller has the smaller code, whatever follows. -/
def OrderedCode (code : Nat → List UInt8) (bound : Nat) : Prop :=
  ∀ m n, m < n → n < bound → ∀ u v, code m ++ u < code n ++ v

theorem byte_lt {m n : Nat} (h : m < n) (hn : n < 256) : UInt8.ofNat m < UInt8.ofNat n := by
  rw [UInt8.lt_iff_toNat_lt, UInt8.toNat_ofNat_of_lt' (by simp only [UInt8.size]; omega),
    UInt8.toNat_ofNat_of_lt' (by simp only [UInt8.size]; omega)]
  exact h

theorem cons_byte_lt {m n : Nat} {u v : List UInt8} (h : m < n) (hn : n < 256) :
    UInt8.ofNat m :: u < UInt8.ofNat n :: v :=
  List.cons_lt_cons_iff.2 (.inl (byte_lt h hn))

/-- A single byte, with `base` added. -/
theorem OrderedCode.byte (k base : Nat) (h : k + base ≤ 256) :
    OrderedCode (fun n => [UInt8.ofNat (n % k + base)]) k := by
  intro m n hmn hn u v
  have hm : m % k = m := Nat.mod_eq_of_lt (by omega)
  have hn' : n % k = n := Nat.mod_eq_of_lt hn
  exact cons_byte_lt (by omega) (by omega)

/-- One more digit to the base of 64. -/
theorem OrderedCode.digit {code : Nat → List UInt8} {bound : Nat} (h : OrderedCode code bound) :
    OrderedCode (fun n => code (n / 64) ++ [UInt8.ofNat (n % 64 + 128)]) (64 * bound) := by
  intro m n hmn hn u v
  simp only [List.append_assoc, List.singleton_append]
  by_cases hdigits : m / 64 < n / 64
  · exact h _ _ hdigits (by omega) _ _
  · have heq : m / 64 = n / 64 := by omega
    rw [heq]
    refine List.append_left_lt ?_
    exact cons_byte_lt (by omega) (by omega)

/-- Of two different characters the smaller has the smaller bytes, whatever follows. -/
theorem utf8EncodeChar_lt {c d : Char} (h : c < d) (u v : List UInt8) :
    String.utf8EncodeChar c ++ u < String.utf8EncodeChar d ++ v := by
  have hmn : c.val.toNat < d.val.toNat := h
  have hn : d.val.toNat < 0x110000 := by
    rcases d.valid with hd | hd
    · exact Nat.lt_trans hd (by decide)
    · exact hd.2
  have htwo := (OrderedCode.byte 32 192 (by decide)).digit
  have hthree := (OrderedCode.byte 16 224 (by decide)).digit.digit
  have hfour := (OrderedCode.byte 8 240 (by decide)).digit.digit.digit
  simp only [Nat.div_div_eq_div_mul] at hthree hfour
  unfold String.utf8EncodeChar
  generalize c.val.toNat = m at hmn ⊢
  generalize d.val.toNat = n at hmn hn ⊢
  simp only
  -- one case for each length of the smaller character, and in it one for each length of the larger
  split
  · split
    · exact cons_byte_lt hmn (by omega)
    · split
      · exact cons_byte_lt (by omega) (by omega)
      · split <;> exact cons_byte_lt (by omega) (by omega)
  · split
    · rw [if_neg (by omega)]
      split
      · exact htwo m n hmn (by omega) u v
      · split <;> exact cons_byte_lt (by omega) (by omega)
    · rw [if_neg (c := n ≤ 127) (by omega), if_neg (c := n ≤ 2047) (by omega)]
      split
      · split
        · exact hthree m n hmn (by omega) u v
        · exact cons_byte_lt (by omega) (by omega)
      · rw [if_neg (by omega)]
        exact hfour m n hmn (by omega) u v

theorem flatMap_utf8EncodeChar_lt {cs ds : List Char} (h : cs < ds) :
    cs.flatMap String.utf8EncodeChar < ds.flatMap String.utf8EncodeChar := by
  induction h with
  | @nil d ds =>
    obtain ⟨b, bs, hb⟩ := List.exists_cons_of_length_pos (String.length_utf8EncodeChar d ▸ d.utf8Size_pos)
    rw [List.flatMap_nil, List.flatMap_cons, hb]
    exact List.nil_lt_cons b _
  | @rel c cs d ds hcd =>
    rw [List.flatMap_cons, List.flatMap_cons]
    exact utf8EncodeChar_lt hcd _ _
  | @cons c cs ds _ ih =>
    rw [List.flatMap_cons, List.flatMap_cons]
    exact List.append_left_lt ih

/-- Bytes and characters order strings alike. -/
theorem utf8_lt_iff {x y : String} : utf8 x < utf8 y ↔ x.toList < y.toList := by
  rw [utf8_eq_flatMap, utf8_eq_flatMap]
  refine ⟨fun h => ?_, flatMap_utf8EncodeChar_lt⟩
  rcases Std.lt_trichotomy x y with hlt | rfl | hlt
  · exact String.lt_iff.1 hlt
  · exact absurd h (List.lt_irrefl _)
  · exact absurd (List.lt_trans h (flatMap_utf8EncodeChar_lt (String.lt_iff.1 hlt))) (List.lt_irrefl _)

end WhileLang
