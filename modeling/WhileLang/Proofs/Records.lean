import WhileLang.Proofs.Skipping

/-! Values with parts, in every spelling that the format allows: a value under its name, a
list of two, and records. A record may be a list of its fields, or an object in which they
stand in any order and among others. What has been read of it by then is a draft, and this
depends only on the names that have been seen; so the order in which they come is lost. -/

namespace WhileLang.Json

def TaggedText (name : String) (value t : List Char) : Prop := ObjectText (Member (StringSpelled name)) [value] t

/-- A record with these fields: a list of their values, or an object with the fields in any order, among members of
other names that hold anything. -/
inductive RecordText (fields : List (String × List Char)) : List Char → Prop where
  | list {t : List Char} : ListText (fields.map Prod.snd) t → RecordText fields t
  | object {ms : List (String × List Char)} {t : List Char} :
    (ms.filter fun m => m.1 ∈ fields.map Prod.fst).Perm fields →
    (∀ m ∈ ms, m.1 ∉ fields.map Prod.fst → WellFormed m.2) →
    ObjectText (fun m => Member (StringSpelled m.1) m.2) ms t → RecordText fields t

/-! ### Tagged values and pairs -/

section
variable {τ α : Type} {all : List τ} {name : τ → String} {bare : τ → Reader α} {read : τ → Reader α} {r : Reader α}
  {c : τ} {t u v : List Char} {a b : α}

theorem TaggedText.opens {x : String} (ht : TaggedText x v t) : Opens t := by
  obtain ⟨s, -, rfl⟩ := ht
  exact ⟨_, _, rfl, by decide, by decide⟩

theorem StringSpelled.opens {x : String} (ht : StringSpelled x t) : Opens t := by
  obtain ⟨s, rfl⟩ := ht.starts
  exact ⟨_, _, rfl, by decide, by decide⟩

theorem tag_spelled (hfind : all.find? (fun u => name u == name c) = some c) (ht : StringSpelled (name c) t)
    (s : List Char) : tag all name (t ++ s) = .ok (c, s) := by
  rw [tag, bind_ok (ht.string s)]
  simp only [hfind]
  rfl

theorem Accepts.tagged (hfind : all.find? (fun u => name u == name c) = some c) (h : Accepts (read c) v a)
    (ht : TaggedText (name c) v t) : Accepts (tagged all name bare (some read)) t a := by
  obtain ⟨s, hs, rfl⟩ := ht
  cases hs with
  | @first _ _ w t w₃ hw ht hfollow =>
    cases hfollow with
    | last hw₃ =>
      obtain ⟨k, w₁, w₂, hk, hw₁, hw₂, rfl⟩ := ht
      obtain ⟨k', hk'⟩ := hk.starts
      refine .of_peek fun rest _ => ?_
      have hends : EndsNumber (w₃ ++ '\x7d' :: rest) := hw₃.endsNumber_append (endsNumber_cons (by decide) rest)
      have hkey : peek (w ++ (k ++ (w₁ ++ ':' :: (w₂ ++ (v ++ (w₃ ++ '\x7d' :: rest)))))) =
          .ok (some '"', k ++ (w₁ ++ ':' :: (w₂ ++ (v ++ (w₃ ++ '\x7d' :: rest))))) := by
        rw [hk']
        exact peek_behind hw rfl _
      simp only [List.cons_append, List.append_assoc, List.nil_append]
      rw [bind_ok (peek_cons rfl _)]
      change (advance >>= _) _ = _
      rw [bind_ok rfl, List.tail_cons, bind_ok hkey]
      change (tag all name >>= _) _ = _
      rw [bind_ok (tag_spelled hfind hk _), bind_ok (colon_blanks hw₁ _), bind_ok (h w₂ _ hw₂ hends),
        bind_ok (peek_behind hw₃ rfl rest)]
      rfl

/-- Another element comes, behind a comma. -/
theorem nextElement_spelled {w w' : List Char} (hw : Blanks w) (hw' : Blanks w') (ht : Opens t) (s : List Char) :
    nextElement false (w ++ ',' :: (w' ++ (t ++ s))) = .ok (true, t ++ s) := by
  obtain ⟨c, t, rfl, hblank, hclose⟩ := ht
  rw [nextElement, bind_ok (peek_behind hw rfl _)]
  change (advance >>= _) _ = _
  rw [bind_ok rfl, List.tail_cons, List.cons_append, bind_ok (peek_behind hw' hblank _)]
  refine congrFun (?_ : _ = (return true : Reader Bool)) _
  split
  · next h => cases h
  · next h => exact absurd (Option.some.inj h) hclose
  · rfl

theorem nextElement_spelled_first {w : List Char} (hw : Blanks w) (ht : Opens t) (s : List Char) :
    nextElement true (w ++ (t ++ s)) = .ok (true, t ++ s) := by
  obtain ⟨c, t, rfl, hblank, hclose⟩ := ht
  rw [nextElement, List.cons_append, bind_ok (peek_behind hw hblank _)]
  refine congrFun (?_ : _ = (return true : Reader Bool)) _
  split
  · next h => cases h
  · next h => exact absurd (Option.some.inj h) hclose
  · rfl

theorem closeList_blanks {w : List Char} (hw : Blanks w) (s : List Char) : closeList (w ++ ']' :: s) = .ok ((), s) := by
  rw [closeList, bind_ok (peek_behind hw rfl s)]
  rfl

theorem Accepts.pair (wanted : String) (ha : Accepts r u a) (hb : Accepts r v b) (hu : Opens u) (hv : Opens v)
    (ht : ListText [u, v] t) : Accepts (pair wanted (some r)) t (a, b) := by
  obtain ⟨s, hs, rfl⟩ := ht
  cases hs with
  | @first _ _ w _ s hw hsame hfollow =>
    subst hsame
    cases hfollow with
    | @comma _ _ w₁ w₂ _ w₃ hw₁ hw₂ hsame hfollow =>
      subst hsame
      cases hfollow with
      | last hw₃ =>
        refine .of_peek fun rest _ => ?_
        have hlast : EndsNumber (w₃ ++ ']' :: rest) := hw₃.endsNumber_append (endsNumber_cons (by decide) rest)
        have hcomma : EndsNumber (w₁ ++ ',' :: (w₂ ++ (v ++ (w₃ ++ ']' :: rest)))) :=
          hw₁.endsNumber_append (endsNumber_cons (by decide) _)
        simp only [List.cons_append, List.append_assoc, List.nil_append]
        rw [bind_ok (peek_cons rfl _)]
        change (advance >>= _) _ = _
        rw [bind_ok rfl, List.tail_cons, bind_ok (nextElement_spelled_first hw hu _)]
        change (r >>= _) _ = _
        rw [bind_ok (ha.here hcomma), bind_ok (nextElement_spelled hw₁ hw₂ hv _)]
        change (r >>= _) _ = _
        rw [bind_ok (hb.here hlast), bind_ok (closeList_blanks hw₃ rest)]
        rfl

end

/-! ### Records -/

/-- The field reads this name and value into the drafts of a record, of which `draft` says what they are once fields of
these names have been seen. -/
structure Field.Takes {δ : Type} (f : Field δ) (draft : List String → δ) (m : String × List Char) : Prop where
  name : f.name = m.1
  opens : Opens m.2
  filled : ∀ seen, f.filled (draft seen) = decide (m.1 ∈ seen)
  read : ∀ seen, Accepts (f.read (draft seen)) m.2 (draft (m.1 :: seen))

inductive AllTake {δ : Type} (draft : List String → δ) : List (Field δ) → List (String × List Char) → Prop where
  | nil : AllTake draft [] []
  | cons {f : Field δ} {fs : List (Field δ)} {m : String × List Char} {ms : List (String × List Char)} :
    f.Takes draft m → AllTake draft fs ms → AllTake draft (f :: fs) (m :: ms)

/-- A draft depends only on the fields that have been read, so the members of an object may come in any order, and
other names do not show in it. -/
structure Layout.Drafts {δ α : Type} (l : Layout δ α) (draft : List String → δ) (fields : List (String × List Char))
    (a : α) : Prop where
  lenient : l.lenient = true
  takes : AllTake draft l.fields fields
  distinct : (fields.map Prod.fst).Nodup
  blank : l.blank = draft []
  other : ∀ x seen, x ∉ fields.map Prod.fst → draft (x :: seen) = draft seen
  build : ∀ seen, (∀ x ∈ fields.map Prod.fst, x ∈ seen) → l.build (draft seen) = .ok a

abbrev MemberText (m : String × List Char) (t : List Char) : Prop := Member (StringSpelled m.1) m.2 t

section
variable {δ α : Type} {l : Layout δ α} {draft : List String → δ} {fields ms : List (String × List Char)}
  {m : String × List Char} {a : α} {t s s' : List Char} {n : Nat} {seen : List String} {first : Bool}

theorem AllTake.find {fs : List (Field δ)} (h : AllTake draft fs ms) (hdistinct : (ms.map Prod.fst).Nodup)
    (hm : m ∈ ms) : ∃ f, fs.find? (fun f => f.name == m.1) = some f ∧ f.Takes draft m := by
  induction h with
  | nil => cases hm
  | @cons f fs m' ms hf _ ih =>
    obtain ⟨hfirst, hrest⟩ := List.nodup_cons.1 hdistinct
    rcases List.mem_cons.1 hm with rfl | hm
    · exact ⟨f, List.find?_cons_of_pos (by simp [hf.name]), hf⟩
    · have hne : f.name ≠ m.1 := by
        rw [hf.name]
        exact fun heq => hfirst (heq ▸ List.mem_map.2 ⟨m, hm, rfl⟩)
      obtain ⟨g, hg, htakes⟩ := ih hrest hm
      exact ⟨g, by rw [List.find?_cons_of_neg (by simp [hne]), hg], htakes⟩

theorem AllTake.find_none {fs : List (Field δ)} {x : String} (h : AllTake draft fs ms) (hx : x ∉ ms.map Prod.fst) :
    fs.find? (fun f => f.name == x) = none := by
  induction h with
  | nil => rfl
  | @cons f fs m ms hf _ ih =>
    rw [List.map_cons, List.mem_cons, not_or] at hx
    rw [List.find?_cons_of_neg (by simpa [hf.name] using Ne.symm hx.1), ih hx.2]

def Readable (fields : List (String × List Char)) (seen : List String) (m : String × List Char) : Prop :=
  (m.1 ∈ fields.map Prod.fst → m ∈ fields ∧ m.1 ∉ seen) ∧ (m.1 ∉ fields.map Prod.fst → WellFormed m.2)

/-- One round: the member is read or passed over, and its name has been seen. -/
theorem Layout.Drafts.member (h : l.Drafts draft fields a) (hm : Readable fields seen m) (ht : MemberText m t)
    (hends : EndsNumber s') (hkey : nextKey first s = .ok (true, t ++ s')) :
    l.members (n + 1) first (draft seen) s = l.members n false (draft (m.1 :: seen)) s' := by
  obtain ⟨k, w, w', hk, hw, hw', rfl⟩ := ht
  rw [Layout.members, bind_ok hkey]
  simp only [List.append_assoc, List.cons_append, if_true]
  rw [bind_ok (hk.string _)]
  by_cases hown : m.1 ∈ fields.map Prod.fst
  · obtain ⟨hmem, hunseen⟩ := hm.1 hown
    obtain ⟨f, hfind, hf⟩ := h.takes.find h.distinct hmem
    have hfilled : f.filled (draft seen) = false := by rw [hf.filled, decide_eq_false hunseen]
    simp only [Layout.field?, hfind, hfilled]
    rw [if_neg Bool.false_ne_true, bind_ok (colon_blanks hw _), bind_ok (hf.read seen w' s' hw' hends)]
  · simp only [Layout.field?, h.takes.find_none hown, h.lenient, if_true]
    rw [bind_ok (colon_blanks hw _), bind_ok ((hm.2 hown).skipValue w' s' hw' hends), h.other _ _ hown]

/-- A member behind a comma. -/
theorem nextKey_spelled {x : String} {v w w' : List Char} (hw : Blanks w) (hw' : Blanks w')
    (ht : Member (StringSpelled x) v t) (s : List Char) :
    nextKey false (w ++ ',' :: (w' ++ (t ++ s))) = .ok (true, t ++ s) := by
  obtain ⟨k, u, u', hk, -, -, rfl⟩ := ht
  obtain ⟨k', rfl⟩ := hk.starts
  rw [nextKey, bind_ok (peek_behind hw rfl _)]
  change (advance >>= _) _ = _
  simp only [List.cons_append]
  rw [bind_ok rfl, List.tail_cons, bind_ok (peek_behind hw' rfl _)]
  rfl

theorem nextKey_spelled_first {x : String} {v w : List Char} (hw : Blanks w) (ht : Member (StringSpelled x) v t)
    (s : List Char) : nextKey true (w ++ (t ++ s)) = .ok (true, t ++ s) := by
  obtain ⟨k, u, u', hk, -, -, rfl⟩ := ht
  obtain ⟨k', rfl⟩ := hk.starts
  simp only [List.cons_append]
  rw [nextKey, bind_ok (peek_behind hw rfl _)]
  rfl

theorem nextKey_close {w : List Char} (hw : Blanks w) (s : List Char) :
    nextKey first (w ++ '\x7d' :: s) = .ok (false, '\x7d' :: s) := by
  rw [nextKey, bind_ok (peek_behind hw rfl _)]
  rfl

def AllReadable (fields : List (String × List Char)) (seen : List String) (ms : List (String × List Char)) : Prop :=
  (∀ m ∈ ms, Readable fields seen m) ∧
    ms.Pairwise fun m m' => m.1 ∈ fields.map Prod.fst → m'.1 ∈ fields.map Prod.fst → m.1 ≠ m'.1

theorem AllReadable.tail (h : AllReadable fields seen (m :: ms)) : AllReadable fields (m.1 :: seen) ms := by
  obtain ⟨hreadable, hpairwise⟩ := h
  obtain ⟨hm, hms⟩ := List.pairwise_cons.1 hpairwise
  refine ⟨fun m' hm' => ?_, hms⟩
  obtain ⟨hown, hother⟩ := hreadable m' (List.mem_cons_of_mem m hm')
  refine ⟨fun hin => ⟨(hown hin).1, ?_⟩, hother⟩
  rw [List.mem_cons, not_or]
  refine ⟨fun heq => ?_, (hown hin).2⟩
  exact hm m' hm' (heq ▸ hin) hin heq.symm

def seenAfter (seen : List String) (ms : List (String × List Char)) : List String := (ms.map Prod.fst).reverse ++ seen

theorem seenAfter_cons : seenAfter seen (m :: ms) = seenAfter (m.1 :: seen) ms := by simp [seenAfter]

theorem Layout.Drafts.members_following (h : l.Drafts draft fields a) (hs : Following MemberText ms s)
    (rest : List Char) :
    ∀ {seen : List String} {n : Nat}, AllReadable fields seen ms → ms.length < n →
      l.members n false (draft seen) (s ++ '\x7d' :: rest) = .ok (draft (seenAfter seen ms), rest) := by
  induction hs with
  | last hw =>
    intro seen n _ hn
    obtain ⟨n, rfl⟩ : ∃ k, n = k + 1 := ⟨n - 1, by omega⟩
    rw [Layout.members, bind_ok (nextKey_close hw rest)]
    rfl
  | @comma m ms w w' t s hw hw' ht hfollow ih =>
    intro seen n hms hn
    obtain ⟨n, rfl⟩ : ∃ k, n = k + 1 := ⟨n - 1, by omega⟩
    have hkey := nextKey_spelled hw hw' ht (s ++ '\x7d' :: rest)
    simp only [List.append_assoc, List.cons_append]
    rw [h.member (hms.1 m (by simp)) ht (hfollow.endsNumber (.inr rfl) rest) hkey, seenAfter_cons]
    exact ih hms.tail (Nat.lt_of_succ_lt_succ hn)

theorem Layout.Drafts.members_separated (h : l.Drafts draft fields a) (hs : Separated MemberText ms s)
    (hms : AllReadable fields [] ms) (hn : ms.length < n) (rest : List Char) :
    l.members n true l.blank (s ++ '\x7d' :: rest) = .ok (draft (seenAfter [] ms), rest) := by
  obtain ⟨n, rfl⟩ : ∃ k, n = k + 1 := ⟨n - 1, by omega⟩
  rw [h.blank]
  cases hs with
  | empty hw =>
    rw [Layout.members, bind_ok (nextKey_close hw rest)]
    rfl
  | @first m ms w t s hw ht hfollow =>
    have hkey := nextKey_spelled_first hw ht (s ++ '\x7d' :: rest)
    simp only [List.append_assoc]
    rw [h.member (hms.1 m (by simp)) ht (hfollow.endsNumber (.inr rfl) rest) hkey, seenAfter_cons]
    exact h.members_following hfollow rest hms.tail (Nat.lt_of_succ_lt_succ hn)

/-- An object has every field once, so that each may be read when its turn comes and none is missing in the end. -/
theorem allReadable_of_perm (hdistinct : (fields.map Prod.fst).Nodup)
    (hperm : (ms.filter fun m => m.1 ∈ fields.map Prod.fst).Perm fields)
    (hother : ∀ m ∈ ms, m.1 ∉ fields.map Prod.fst → WellFormed m.2) :
    AllReadable fields [] ms ∧ ∀ x ∈ fields.map Prod.fst, x ∈ seenAfter [] ms := by
  refine ⟨⟨fun m hm => ⟨fun hin => ⟨?_, List.not_mem_nil⟩, hother m hm⟩, ?_⟩, ?_⟩
  · exact hperm.mem_iff.1 (List.mem_filter.2 ⟨hm, decide_eq_true hin⟩)
  · have hnodup := (hperm.map Prod.fst).nodup_iff.2 hdistinct
    have hpairwise := List.pairwise_filter.1 (List.pairwise_map.1 hnodup)
    exact hpairwise.imp fun himp hm hm' => himp (decide_eq_true hm) (decide_eq_true hm')
  · intro x hx
    obtain ⟨m, hm, rfl⟩ := List.mem_map.1 hx
    have hmem := (List.mem_filter.1 (hperm.mem_iff.2 hm)).1
    simp only [seenAfter, List.append_nil, List.mem_reverse]
    exact List.mem_map.2 ⟨m, hmem, rfl⟩

/-- One round: the field that comes next in the order of the record is read. -/
theorem Field.Takes.element {f : Field δ} (hf : f.Takes draft m) (l : Layout δ α) (wanted : String)
    (fs : List (Field δ)) {i : Nat} (hends : EndsNumber s') (hnext : nextElement (i == 0) s = .ok (true, m.2 ++ s')) :
    l.elements wanted (f :: fs) i (draft seen) s = l.elements wanted fs (i + 1) (draft (m.1 :: seen)) s' := by
  rw [Layout.elements, bind_ok hnext]
  change (f.read _ >>= _) _ = _
  rw [bind_ok ((hf.read seen).here hends)]

theorem AllTake.elements_following {fs : List (Field δ)} (h : AllTake draft fs ms) (l : Layout δ α) (wanted : String)
    (rest : List Char) : ∀ {s : List Char} {i : Nat} {seen : List String}, Following Eq (ms.map Prod.snd) s →
      ∃ w, Blanks w ∧ l.elements wanted fs (i + 1) (draft seen) (s ++ ']' :: rest) =
        .ok (draft (seenAfter seen ms), w ++ ']' :: rest) := by
  induction h with
  | nil =>
    intro s i seen hs
    cases hs with
    | last hw => exact ⟨s, hw, rfl⟩
  | @cons f fs m ms hf _ ih =>
    intro s i seen hs
    cases hs with
    | @comma _ _ w w' _ s hw hw' hsame hfollow =>
      subst hsame
      have hnext := nextElement_spelled hw hw' hf.opens (s ++ ']' :: rest)
      simp only [List.append_assoc, List.cons_append]
      rw [hf.element l wanted fs (i := i + 1) (hfollow.endsNumber (.inl rfl) rest) hnext, seenAfter_cons]
      exact ih hfollow

theorem AllTake.elements_separated {fs : List (Field δ)} (h : AllTake draft fs ms) (l : Layout δ α) (wanted : String)
    (rest : List Char) (hs : Separated Eq (ms.map Prod.snd) s) :
    ∃ w, Blanks w ∧ l.elements wanted fs 0 (draft []) (s ++ ']' :: rest) =
      .ok (draft (seenAfter [] ms), w ++ ']' :: rest) := by
  cases h with
  | nil =>
    cases hs with
    | empty hw => exact ⟨s, hw, rfl⟩
  | @cons f fs m ms hf hfs =>
    cases hs with
    | @first _ _ w _ s hw hsame hfollow =>
      subst hsame
      have hnext := nextElement_spelled_first hw hf.opens (s ++ ']' :: rest)
      simp only [List.append_assoc]
      rw [hf.element l wanted fs (i := 0) (hfollow.endsNumber (.inl rfl) rest) hnext, seenAfter_cons]
      exact hfs.elements_following l wanted rest hfollow

theorem Accepts.record {wanted : String} (h : l.Drafts draft fields a) (ht : RecordText fields t) :
    Accepts (record wanted (some l)) t a := by
  have hfinished : ∀ {seen rest}, (∀ x ∈ fields.map Prod.fst, x ∈ seen) →
      l.finished (draft seen) rest = .ok (a, rest) := by
    intro seen rest hseen
    rw [Layout.finished, h.build seen hseen]
    rfl
  cases ht with
  | list hlist =>
    obtain ⟨s, hs, rfl⟩ := hlist
    refine .of_peek fun rest _ => ?_
    obtain ⟨w, hw, helements⟩ := h.takes.elements_separated l wanted rest hs
    rw [← h.blank] at helements
    have hseen : ∀ x ∈ fields.map Prod.fst, x ∈ seenAfter [] fields := by simp [seenAfter]
    simp only [List.cons_append, List.append_assoc, List.nil_append]
    rw [bind_ok (peek_cons rfl _)]
    change (advance >>= _) _ = _
    rw [bind_ok rfl, List.tail_cons, bind_ok helements, bind_ok (hfinished hseen), bind_ok (closeList_blanks hw rest)]
    rfl
  | @object ms _ hperm hother hobject =>
    obtain ⟨s, hs, rfl⟩ := hobject
    refine .of_peek fun rest _ => ?_
    obtain ⟨hreadable, hseen⟩ := allReadable_of_perm h.distinct hperm hother
    have hlen : ms.length < (s ++ '\x7d' :: rest).length := by
      have := hs.length_le fun m t => Member.length_pos
      simp only [List.length_append, List.length_cons]
      omega
    have hmembers := h.members_separated hs hreadable hlen rest
    simp only [List.cons_append, List.append_assoc, List.nil_append]
    rw [bind_ok (peek_cons rfl _)]
    change (advance >>= _) _ = _
    rw [bind_ok rfl, List.tail_cons]
    change (l.members _ true l.blank >>= _) _ = _
    rw [bind_ok hmembers, hfinished hseen]

end

end WhileLang.Json
