import WhileLang.Proofs.Grammar

/-! Values that nobody asked for. They may say anything: numbers of any size, strings whose
escapes stand for no character, lists and objects that nest as deeply as they like. The
reader passes over every such value, and the brackets in it do not count. -/

namespace WhileLang.Json

/-- A piece of a string whose characters nobody asks for: half of a surrogate pair will do. -/
inductive StringPiece : List Char → Prop where
  | plain {c : Char} : 0x20 ≤ c.toNat → c ≠ '"' → c ≠ '\\' → StringPiece [c]
  | letter {c l : Char} : (l, c) ∈ letterEscapes → StringPiece ['\\', l]
  | unit {h : List Char} {n : Nat} : HexUnit h n → StringPiece ('\\' :: 'u' :: h)

inductive StringPieces : List Char → Prop where
  | nil : StringPieces []
  | cons {t ts : List Char} : StringPiece t → StringPieces ts → StringPieces (t ++ ts)

def StringText (t : List Char) : Prop := ∃ body, StringPieces body ∧ t = '"' :: (body ++ ['"'])

def Digits (ds : List Char) : Prop := ds ≠ [] ∧ ∀ c ∈ ds, isDigit c = true

/-- The part of a number before the point has no leading zero. -/
def WholeText (ds : List Char) : Prop := Digits ds ∧ (ds.head? = some '0' → ds = ['0'])

inductive FractionText : List Char → Prop where
  | absent : FractionText []
  | present {ds : List Char} : Digits ds → FractionText ('.' :: ds)

inductive ExponentText : List Char → Prop where
  | absent : ExponentText []
  | present {e : Char} {sign ds : List Char} : e = 'e' ∨ e = 'E' → sign ∈ [[], ['+'], ['-']] → Digits ds →
    ExponentText (e :: (sign ++ ds))

inductive NumberText : List Char → Prop where
  | parts {sign ds f e : List Char} : sign ∈ [[], ['-']] → WholeText ds → FractionText f → ExponentText e →
    NumberText (sign ++ (ds ++ (f ++ e)))

/-- The values of the format, of any size and depth. -/
inductive WellFormed : List Char → Prop where
  | word {t : List Char} : t ∈ [['n', 'u', 'l', 'l'], ['t', 'r', 'u', 'e'], ['f', 'a', 'l', 's', 'e']] → WellFormed t
  | number {t : List Char} : NumberText t → WellFormed t
  | string {t : List Char} : StringText t → WellFormed t
  | list {ts : List (List Char)} {t : List Char} : ListText ts t → (∀ v ∈ ts, WellFormed v) → WellFormed t
  | object {vs : List (List Char)} {t : List Char} : ObjectText (Member StringText) vs t → (∀ v ∈ vs, WellFormed v) →
    WellFormed t

section
variable {t s : List Char} {n : Nat} {c : Char}

theorem StringPiece.skipChars (ht : StringPiece t) (n : Nat) (s : List Char) :
    skipChars (n + 1) (t ++ s) = skipChars n s := by
  cases ht with
  | @plain c hlow hquote hback =>
    have hnext : next (c :: s) = .ok (some c, s) := rfl
    rw [List.singleton_append, Json.skipChars, bind_ok hnext]
    refine congrFun ?_ s
    split
    · next h => cases h
    · next h => exact absurd (Option.some.inj h) hquote
    · next h => exact absurd (Option.some.inj h) hback
    · next h =>
      cases h
      rw [if_neg (Nat.not_lt.2 hlow)]
  | letter hl =>
    simp only [letterEscapes, List.mem_cons, Prod.mk.injEq, List.not_mem_nil, or_false] at hl
    rcases hl with ⟨rfl, rfl⟩ | ⟨rfl, rfl⟩ | ⟨rfl, rfl⟩ | ⟨rfl, rfl⟩ | ⟨rfl, rfl⟩ | ⟨rfl, rfl⟩ | ⟨rfl, rfl⟩ |
      ⟨rfl, rfl⟩ <;>
      rfl
  | @unit h k hh =>
    have hescape : skipEscape ('u' :: (h ++ s)) = .ok ((), s) := by
      have hhex := bind_ok (f := fun _ => (pure () : Reader Unit)) (hh.hexEscape s)
      exact hhex
    exact bind_ok (f := fun _ => Json.skipChars n) hescape

theorem StringPiece.length_pos (ht : StringPiece t) : 1 ≤ t.length := by
  cases ht <;> simp

theorem StringPieces.skipChars (ht : StringPieces t) (hn : t.length < n) (s : List Char) :
    skipChars n (t ++ '"' :: s) = .ok ((), s) := by
  induction ht generalizing n with
  | nil =>
    obtain ⟨n, rfl⟩ : ∃ k, n = k + 1 := ⟨n - 1, by simp at hn; omega⟩
    rfl
  | cons hpiece _ ih =>
    have hpos := hpiece.length_pos
    rw [List.length_append] at hn
    obtain ⟨n, rfl⟩ : ∃ k, n = k + 1 := ⟨n - 1, by omega⟩
    rw [List.append_assoc, hpiece.skipChars, ih (by omega)]

theorem StringText.skipString (ht : StringText t) (s : List Char) : skipString (t ++ s) = .ok ((), s) := by
  obtain ⟨body, hbody, rfl⟩ := ht
  have hlen : body.length < (body ++ '"' :: s).length := by
    rw [List.length_append, List.length_cons]
    omega
  rw [List.cons_append, List.append_assoc, List.singleton_append]
  exact hbody.skipChars hlen s

theorem StringText.starts (ht : StringText t) : ∃ s, t = '"' :: s := by
  obtain ⟨body, -, rfl⟩ := ht
  exact ⟨_, rfl⟩

/-! The parts of a number -/

def NoDigit (s : List Char) : Prop := ∀ c ∈ s.head?, isDigit c = false

theorem EndsNumber.noDigit (h : EndsNumber s) : NoDigit s := fun c hc => (h c hc).1

theorem Digits.someDigits (hds : Digits t) (hs : NoDigit s) (atEnd : ReadError) :
    someDigits atEnd (t ++ s) = .ok (t, s) := by
  obtain ⟨hne, hall⟩ := hds
  obtain ⟨c, cs, rfl⟩ := List.exists_cons_of_ne_nil hne
  have hstop : s.takeWhile isDigit = [] ∧ s.dropWhile isDigit = s := by
    cases s with
    | nil => exact ⟨rfl, rfl⟩
    | cons d s => simp [hs d rfl]
  have hdigits : digits ((c :: cs) ++ s) = .ok (c :: cs, s) := by
    rw [digits, List.takeWhile_append_of_pos hall, List.dropWhile_append_of_pos hall, hstop.1, hstop.2, List.append_nil]
  rw [Json.someDigits, bind_ok rfl]
  simp only [List.cons_append, List.head?_cons, hall c (by simp)]
  exact hdigits

theorem WholeText.wholeDigits (hds : WholeText t) (hs : NoDigit s) (atEnd : ReadError) :
    wholeDigits atEnd (t ++ s) = .ok (t, s) := by
  obtain ⟨hdigits, hzero⟩ := hds
  rw [Json.wholeDigits, bind_ok (hdigits.someDigits hs atEnd)]
  refine congrFun (?_ : _ = (return t : Reader (List Char))) s
  split
  · rfl
  · next hne => exact absurd (List.cons.inj (hzero rfl)).2 hne
  · rfl

theorem FractionText.noDigit (hf : FractionText t) (hs : NoDigit s) : NoDigit (t ++ s) := by
  cases hf with
  | absent => exact hs
  | present =>
    intro c hc
    cases hc
    rfl

theorem ExponentText.noDigit (he : ExponentText t) (hs : NoDigit s) : NoDigit (t ++ s) := by
  cases he with
  | absent => exact hs
  | present he =>
    intro c hc
    cases hc
    rcases he with rfl | rfl <;> rfl

theorem minus_digit (hc : isDigit c = true) (s : List Char) : minus (c :: s) = .ok (false, c :: s) := by
  rw [minus, bind_ok rfl]
  refine congrFun (?_ : _ = (return false : Reader Bool)) _
  split
  · next h =>
    rw [(List.cons.inj h).1] at hc
    exact absurd hc (by decide)
  · rfl

theorem exponentSign_digit (hc : isDigit c = true) (s : List Char) : exponentSign (c :: s) = .ok (false, c :: s) := by
  have hplain : exponentSign (c :: s) = minus (c :: s) := by
    rw [exponentSign, bind_ok rfl]
    refine congrFun (?_ : _ = minus) _
    split
    · next h =>
      rw [(List.cons.inj h).1] at hc
      exact absurd hc (by decide)
    · rfl
  rw [hplain, minus_digit hc]

theorem ExponentText.exponentPart (he : ExponentText t) (hs : EndsNumber s) (atEnd : ReadError) :
    ∃ e, exponentPart atEnd (t ++ s) = .ok (e, s) := by
  cases he with
  | absent => exact ⟨none, exponentPart_none hs⟩
  | @present e sign ds he hsign hds =>
    have hsigned : ∃ b, exponentSign (sign ++ (ds ++ s)) = .ok (b, ds ++ s) := by
      simp only [List.mem_cons, List.not_mem_nil, or_false] at hsign
      rcases hsign with rfl | rfl | rfl
      · obtain ⟨c, cs, rfl⟩ := List.exists_cons_of_ne_nil hds.1
        exact ⟨false, exponentSign_digit (hds.2 c (by simp)) _⟩
      · exact ⟨false, rfl⟩
      · exact ⟨true, rfl⟩
    obtain ⟨b, hb⟩ := hsigned
    have hset : (set (sign ++ (ds ++ s)) : Reader PUnit) (e :: (sign ++ (ds ++ s))) = .ok (⟨⟩, sign ++ (ds ++ s)) := rfl
    rw [Json.exponentPart, bind_ok rfl]
    simp only [List.cons_append, List.append_assoc, he, if_true]
    rw [bind_ok hset, bind_ok hb, bind_ok (hds.someDigits hs.noDigit atEnd)]
    exact ⟨_, rfl⟩

theorem FractionText.fractionPart (hf : FractionText t) (hs : NoDigit s) (hpoint : s.head? ≠ some '.')
    (atEnd : ReadError) : ∃ f, fractionPart atEnd (t ++ s) = .ok (f, s) := by
  cases hf with
  | absent =>
    refine ⟨none, ?_⟩
    rw [List.nil_append, Json.fractionPart, bind_ok rfl]
    refine congrFun (?_ : _ = (return none : Reader (Option (List Char)))) s
    split
    · next h => exact absurd rfl hpoint
    · rfl
  | @present ds hds =>
    have hset : (set (ds ++ s) : Reader PUnit) ('.' :: (ds ++ s)) = .ok (⟨⟩, ds ++ s) := rfl
    rw [Json.fractionPart, bind_ok rfl]
    change ∃ f, (set (ds ++ s) >>= _ : Reader _) _ = _
    rw [List.cons_append, bind_ok hset, bind_ok (hds.someDigits hs atEnd)]
    exact ⟨_, rfl⟩

theorem ExponentText.no_point (he : ExponentText t) (hs : EndsNumber s) : (t ++ s).head? ≠ some '.' := by
  intro h
  cases he with
  | absent => exact (hs '.' h).2.1 rfl
  | present he =>
    cases h
    rcases he with he | he <;> exact absurd he (by decide)

theorem NumberText.literal (ht : NumberText t) (hs : EndsNumber s) (atEnd : ReadError) :
    ∃ l, literal atEnd (t ++ s) = .ok (l, s) := by
  cases ht with
  | @parts sign ds f e hsign hds hf he =>
    have hsigned : ∃ b, minus (sign ++ (ds ++ (f ++ (e ++ s)))) = .ok (b, ds ++ (f ++ (e ++ s))) := by
      simp only [List.mem_cons, List.not_mem_nil, or_false] at hsign
      rcases hsign with rfl | rfl
      · obtain ⟨c, cs, rfl⟩ := List.exists_cons_of_ne_nil hds.1.1
        exact ⟨false, minus_digit (hds.1.2 c (by simp)) _⟩
      · exact ⟨true, rfl⟩
    have hexponent := he.noDigit hs.noDigit
    obtain ⟨b, hb⟩ := hsigned
    obtain ⟨fraction, hfraction⟩ := hf.fractionPart hexponent (he.no_point hs) atEnd
    obtain ⟨exponent, hexponent'⟩ := he.exponentPart hs atEnd
    refine ⟨⟨b, ds, fraction, exponent⟩, ?_⟩
    simp only [List.append_assoc]
    rw [Json.literal, bind_ok hb, bind_ok (hds.wholeDigits (hf.noDigit hexponent) atEnd), bind_ok hfraction,
      bind_ok hexponent']
    rfl

theorem NumberText.starts (ht : NumberText t) : ∃ c s, t = c :: s ∧ startsNumber c = true := by
  cases ht with
  | @parts sign ds f e hsign hds _ _ =>
    simp only [List.mem_cons, List.not_mem_nil, or_false] at hsign
    rcases hsign with rfl | rfl
    · obtain ⟨c, cs, rfl⟩ := List.exists_cons_of_ne_nil hds.1.1
      exact ⟨c, _, rfl, by simp [startsNumber, hds.1.2 c]⟩
    · exact ⟨'-', _, rfl, rfl⟩

theorem WellFormed.opens (ht : WellFormed t) : Opens t := by
  cases ht with
  | word hword =>
    simp only [List.mem_cons, List.not_mem_nil, or_false] at hword
    rcases hword with rfl | rfl | rfl <;> exact ⟨_, _, rfl, by decide, by decide⟩
  | number hnumber =>
    obtain ⟨c, s, rfl, hc⟩ := hnumber.starts
    refine ⟨c, s, rfl, isBlank_of_startsNumber hc, ?_⟩
    rintro rfl
    exact absurd hc (by decide)
  | string hstring =>
    obtain ⟨s, rfl⟩ := hstring.starts
    exact ⟨_, _, rfl, by decide, by decide⟩
  | list hlist =>
    obtain ⟨s, -, rfl⟩ := hlist
    exact ⟨_, _, rfl, by decide, by decide⟩
  | object hobject =>
    obtain ⟨s, -, rfl⟩ := hobject
    exact ⟨_, _, rfl, by decide, by decide⟩

theorem colon_blanks {w : List Char} (hw : Blanks w) (s : List Char) : colon (w ++ ':' :: s) = .ok ((), s) := by
  rw [colon, bind_ok (peek_behind hw rfl s)]
  rfl

/-! Passing over values -/

theorem skipNested_number (hc : startsNumber c = true) (n : Nat) (s : List Char) :
    skipNested (n + 1) (c :: s) = skipNumber (c :: s) := by
  have hdigit : c = '-' ∨ isDigit c = true := by simpa [startsNumber] using hc
  rw [skipNested, bind_ok (peek_cons (isBlank_of_startsNumber hc) s)]
  refine congrFun (?_ : _ = skipNumber) _
  split
  case h_1 h => cases h
  case h_8 h =>
    cases h
    exact if_pos hdigit
  all_goals
    next h =>
      cases h
      exact absurd hc (by decide)

section
variable {value : Reader Unit} {ts vs : List (List Char)}

/-- Round after round, one element and the comma behind it. -/
theorem skipElements_following (hs : Following Eq ts s) (rest : List Char) : ∀ {t w : List Char} {n : Nat}, Blanks w →
    (∀ v ∈ t :: ts, Accepts value v ()) → ts.length < n →
    skipElements value n (w ++ (t ++ (s ++ ']' :: rest))) = .ok ((), rest) := by
  induction hs with
  | last hw' =>
    intro t w n hw hvalue hn
    obtain ⟨n, rfl⟩ : ∃ k, n = k + 1 := ⟨n - 1, by omega⟩
    have hends := hw'.endsNumber_append (endsNumber_cons (c := ']') (by decide) rest)
    rw [skipElements, bind_ok (hvalue t (by simp) w _ hw hends), bind_ok (peek_behind hw' rfl rest)]
    rfl
  | @comma u us v v' t' s hv hv' heq hfollow ih =>
    intro t w n hw hvalue hn
    subst heq
    obtain ⟨n, rfl⟩ : ∃ k, n = k + 1 := ⟨n - 1, by omega⟩
    have hends : EndsNumber (v ++ ',' :: (v' ++ (u ++ s)) ++ ']' :: rest) :=
      (Following.comma hv hv' rfl hfollow).endsNumber (.inl rfl) rest
    rw [skipElements, bind_ok (hvalue t (by simp) w _ hw hends)]
    simp only [List.append_assoc, List.cons_append]
    rw [bind_ok (peek_behind hv rfl _)]
    exact ih hv' (fun x hx => hvalue x (List.mem_cons_of_mem t hx)) (Nat.lt_of_succ_lt_succ hn)

def memberEnd (others : Reader Unit) : Reader Unit := do
  match ← peek with
  | none => throw (.ended .object)
  | some ',' => do
    advance
    others
  | some '\x7d' => advance
  | some _ => throw .expectedObjectEnd

theorem skipMembers_member (value : Reader Unit) {v t w : List Char} (hw : Blanks w) (ht : Member StringText v t)
    (n : Nat) (s : List Char) :
    ∃ w', Blanks w' ∧ skipMembers value (n + 1) (w ++ (t ++ s)) =
      (do value; memberEnd (skipMembers value n) : Reader Unit) (w' ++ (v ++ s)) := by
  obtain ⟨k, u, w', hk, hu, hw', rfl⟩ := ht
  refine ⟨w', hw', ?_⟩
  obtain ⟨k', hk'⟩ := hk.starts
  have hpeek : peek (w ++ ((k ++ (u ++ ':' :: (w' ++ v))) ++ s)) =
      .ok (some '"', k ++ (u ++ ':' :: (w' ++ (v ++ s)))) := by
    simp only [hk', List.cons_append, List.append_assoc]
    exact peek_behind hw rfl _
  rw [skipMembers, bind_ok hpeek]
  change (skipString >>= _) _ = _
  rw [bind_ok (hk.skipString _), bind_ok (colon_blanks hu _)]
  rfl

theorem skipMembers_following (hs : Following (Member StringText) vs s) (rest : List Char) :
    ∀ {v t w : List Char} {n : Nat}, Blanks w → Member StringText v t → (∀ u ∈ v :: vs, Accepts value u ()) →
      vs.length < n →
    skipMembers value n (w ++ (t ++ (s ++ '\x7d' :: rest))) = .ok ((), rest) := by
  induction hs with
  | last hu =>
    intro v t w n hw ht hvalue hn
    obtain ⟨n, rfl⟩ : ∃ k, n = k + 1 := ⟨n - 1, by omega⟩
    obtain ⟨w', hw', hmember⟩ := skipMembers_member value hw ht n (_ ++ '\x7d' :: rest)
    have hends := hu.endsNumber_append (endsNumber_cons (c := '\x7d') (by decide) rest)
    rw [hmember, bind_ok (hvalue v (by simp) w' _ hw' hends), memberEnd, bind_ok (peek_behind hu rfl rest)]
    rfl
  | @comma v₂ vs u u' t₂ s hu hu' ht₂ hfollow ih =>
    intro v t w n hw ht hvalue hn
    obtain ⟨n, rfl⟩ : ∃ k, n = k + 1 := ⟨n - 1, by omega⟩
    obtain ⟨w', hw', hmember⟩ :=
      skipMembers_member value hw ht n (u ++ ',' :: (u' ++ (t₂ ++ s)) ++ '\x7d' :: rest)
    have hends := (Following.comma hu hu' ht₂ hfollow).endsNumber (.inr rfl) rest
    rw [hmember, bind_ok (hvalue v (by simp) w' _ hw' hends), memberEnd]
    simp only [List.append_assoc, List.cons_append]
    rw [bind_ok (peek_behind hu rfl _)]
    exact ih hu' ht₂ (fun x hx => hvalue x (List.mem_cons_of_mem v hx)) (Nat.lt_of_succ_lt_succ hn)

theorem skipList_separated (hs : Separated Eq ts s) (hts : ∀ v ∈ ts, WellFormed v)
    (hvalue : ∀ v ∈ ts, Accepts value v ()) (rest : List Char) :
    skipList value ('[' :: (s ++ ']' :: rest)) = .ok ((), rest) := by
  rw [skipList, bind_ok rfl, List.tail_cons]
  cases hs with
  | empty hw =>
    rw [bind_ok (peek_behind hw rfl rest)]
    rfl
  | @first t ts w t' s hw heq hfollow =>
    subst heq
    obtain ⟨c, t', rfl, hblank, hclose⟩ := (hts t (by simp)).opens
    have hlen : ts.length < (c :: t' ++ (s ++ ']' :: rest)).length := by
      have := hfollow.length_le
      simp only [List.length_append, List.length_cons]
      omega
    have helements := skipElements_following hfollow rest .nil hvalue hlen
    simp only [List.append_assoc, List.cons_append]
    rw [bind_ok (peek_behind hw hblank _)]
    refine (congrFun (?_ : _ = (do skipElements value (← remaining) : Reader Unit)) _).trans helements
    split
    · next h => cases h
    · next h => exact absurd (Option.some.inj h) hclose
    · rfl

theorem skipObject_separated (hs : Separated (Member StringText) vs s) (hvalue : ∀ v ∈ vs, Accepts value v ())
    (rest : List Char) : skipObject value ('\x7b' :: (s ++ '\x7d' :: rest)) = .ok ((), rest) := by
  rw [skipObject, bind_ok rfl, List.tail_cons]
  cases hs with
  | empty hw =>
    rw [bind_ok (peek_behind hw rfl rest)]
    rfl
  | @first v vs w t s hw ht hfollow =>
    have hlen : vs.length < (t ++ (s ++ '\x7d' :: rest)).length := by
      have := hfollow.length_le
      simp only [List.length_append, List.length_cons]
      omega
    have hmembers := skipMembers_following hfollow rest .nil ht hvalue hlen
    obtain ⟨k, u, w', hk, -, -, rfl⟩ := ht
    obtain ⟨k', rfl⟩ := hk.starts
    simp only [List.append_assoc, List.cons_append] at hmembers ⊢
    rw [bind_ok (peek_behind hw rfl _)]
    exact hmembers

end

/-- Every value is passed over, by a reader that may go as deep as the value is long. -/
theorem WellFormed.skipNested (ht : WellFormed t) : ∀ {n : Nat}, t.length ≤ n → Accepts (skipNested n) t () := by
  induction ht with
  | word hword =>
    intro n hn
    simp only [List.mem_cons, List.not_mem_nil, or_false] at hword
    rcases hword with rfl | rfl | rfl <;> obtain ⟨n, rfl⟩ : ∃ k, n = k + 1 := ⟨n - 1, by simp at hn; omega⟩ <;>
      exact .of_peek fun rest _ => rfl
  | @number t hnumber =>
    intro n hn
    obtain ⟨c, s, rfl, hc⟩ := hnumber.starts
    obtain ⟨n, rfl⟩ : ∃ k, n = k + 1 := ⟨n - 1, by simp at hn; omega⟩
    refine .of_peek fun rest hrest => ?_
    obtain ⟨l, hl⟩ := hnumber.literal hrest .badNumber
    have hskip := skipNested_number hc n (s ++ rest)
    refine hskip.trans ?_
    exact bind_ok (f := fun _ => (pure () : Reader Unit)) hl
  | @string t hstring =>
    intro n hn
    have hskip := hstring.skipString
    obtain ⟨s, rfl⟩ := hstring.starts
    obtain ⟨n, rfl⟩ : ∃ k, n = k + 1 := ⟨n - 1, by simp at hn; omega⟩
    exact .of_peek fun rest _ => hskip rest
  | @list ts t hlist hts ih =>
    intro n hn
    obtain ⟨s, hs, rfl⟩ := hlist
    simp only [List.length_cons, List.length_append, List.length_nil] at hn
    obtain ⟨n, rfl⟩ : ∃ k, n = k + 1 := ⟨n - 1, by omega⟩
    have hvalue : ∀ v ∈ ts, Accepts (Json.skipNested n) v () := by
      intro v hv
      obtain ⟨_, rfl, hlen⟩ := hs.length_part hv
      exact ih v hv (by omega)
    refine .of_peek fun rest _ => ?_
    rw [List.cons_append, List.append_assoc]
    exact skipList_separated hs hts hvalue rest
  | @object vs t hobject hvs ih =>
    intro n hn
    obtain ⟨s, hs, rfl⟩ := hobject
    simp only [List.length_cons, List.length_append, List.length_nil] at hn
    obtain ⟨n, rfl⟩ : ∃ k, n = k + 1 := ⟨n - 1, by omega⟩
    have hvalue : ∀ v ∈ vs, Accepts (Json.skipNested n) v () := by
      intro v hv
      obtain ⟨t, ⟨k, w, w', -, -, -, rfl⟩, hlen⟩ := hs.length_part hv
      simp only [List.length_append, List.length_cons] at hlen
      exact ih v hv (by omega)
    refine .of_peek fun rest _ => ?_
    rw [List.cons_append, List.append_assoc]
    exact skipObject_separated hs hvalue rest

theorem WellFormed.skipValue (ht : WellFormed t) : Accepts skipValue t () := by
  intro w rest hw hrest
  have hlen : t.length ≤ (w ++ (t ++ rest)).length := by
    simp only [List.length_append]
    omega
  exact ht.skipNested hlen w rest hw hrest

end

end WhileLang.Json
