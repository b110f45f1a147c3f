import Mathlib.Data.Finset.Card
import WhileLang.Proofs.ByteOrder
import WhileLang.Proofs.Spelling

/-! Environments as finite maps. A list of bindings, with names in any order and more than
once, makes one environment: bound one after the other, sorted and stripped of the earlier
bindings of a name, or read from an object that lists them. It has the last value of each
name, with the names in the order of their bytes, and nothing else can be seen of the list. -/

namespace WhileLang

/-! ### The last binding of a name -/

section
variable {α : Type} {x : String} {l m : List (String × α)}

def keepLast : List (String × α) → List (String × α)
  | [] => []
  | [p] => [p]
  | p :: q :: rest => if p.1 = q.1 then keepLast (q :: rest) else p :: keepLast (q :: rest)

def Ascending (l : List (String × α)) : Prop := l.Pairwise fun p q => p.1 ≤ q.1

theorem mem_of_mem_keepLast {p : String × α} (h : p ∈ keepLast l) : p ∈ l := by
  fun_induction keepLast l with
  | case1 => exact h
  | case2 => exact h
  | case3 q r rest _ ih => exact List.mem_cons_of_mem q (ih h)
  | case4 q r rest _ ih =>
    rcases List.mem_cons.1 h with rfl | h
    · exact List.mem_cons_self
    · exact List.mem_cons_of_mem q (ih h)

theorem Ascending.keepLast (h : Ascending l) : Increasing (keepLast l) := by
  fun_induction WhileLang.keepLast l with
  | case1 => exact .nil
  | case2 => exact List.pairwise_singleton ..
  | case3 p q rest _ ih => exact ih (List.pairwise_cons.1 h).2
  | case4 p q rest hne ih =>
    obtain ⟨hp, hrest⟩ := List.pairwise_cons.1 h
    obtain ⟨hq, -⟩ := List.pairwise_cons.1 hrest
    have hpq : p.1 < q.1 := Std.lt_of_le_of_ne (hp q (by simp)) hne
    refine List.pairwise_cons.2 ⟨fun r hr => ?_, ih hrest⟩
    rcases List.mem_cons.1 (mem_of_mem_keepLast hr) with rfl | hr
    · exact hpq
    · exact Std.lt_of_lt_of_le hpq (hq r hr)

theorem lookup_cons_ite (p : String × α) (l : List (String × α)) (x : String) :
    (p :: l).lookup x = if x = p.1 then some p.2 else l.lookup x := by
  rw [List.lookup_cons]
  by_cases h : x = p.1
  · rw [if_pos h, beq_iff_eq.2 h]
  · rw [if_neg h, beq_eq_false_iff_ne.2 h]

/-- The first binding in a list is the last one to count. -/
theorem lookup_reverse_cons (p : String × α) (l : List (String × α)) (x : String) :
    (p :: l).reverse.lookup x = (l.reverse.lookup x).or (if x = p.1 then some p.2 else none) := by
  rw [List.reverse_cons, List.lookup_append, lookup_cons_ite]
  rfl

theorem lookup_reverse_eq_none : l.reverse.lookup x = none ↔ ∀ p ∈ l, p.1 ≠ x := by
  simp only [List.lookup_eq_none_iff, List.mem_reverse, bne_iff_ne, ne_comm]

theorem lookup_reverse_eq_some {a : α} :
    l.reverse.lookup x = some a ↔ ∃ before after, l = before ++ (x, a) :: after ∧ ∀ p ∈ after, p.1 ≠ x := by
  rw [List.lookup_eq_some_iff]
  constructor
  · rintro ⟨after, before, hl, hafter⟩
    refine ⟨before.reverse, after.reverse, ?_, fun p hp => ?_⟩
    · have hl' := congrArg List.reverse hl
      simpa using hl'
    · exact (bne_iff_ne.1 (hafter p (List.mem_reverse.1 hp))).symm
  · rintro ⟨before, after, rfl, hafter⟩
    refine ⟨after.reverse, before.reverse, by simp, fun p hp => ?_⟩
    exact bne_iff_ne.2 (hafter p (List.mem_reverse.1 hp)).symm

theorem lookup_keepLast (h : Ascending l) : (keepLast l).lookup x = l.reverse.lookup x := by
  fun_induction keepLast l with
  | case1 => rfl
  | case2 => rfl
  | case3 p q rest heq ih =>
    rw [ih (List.pairwise_cons.1 h).2, lookup_reverse_cons p]
    by_cases hx : x = p.1
    · -- the name is bound again by the next one
      have hbound : (q :: rest).reverse.lookup x ≠ none := by
        rw [Ne, lookup_reverse_eq_none]
        exact fun hnone => hnone q (by simp) (hx.trans heq).symm
      obtain ⟨a, ha⟩ := Option.ne_none_iff_exists'.1 hbound
      rw [ha, Option.some_or]
    · rw [if_neg hx, Option.or_none]
  | case4 p q rest hne ih =>
    obtain ⟨hp, hrest⟩ := List.pairwise_cons.1 h
    rw [lookup_cons_ite, ih hrest, lookup_reverse_cons p]
    by_cases hx : x = p.1
    · have hpq : p.1 < q.1 := Std.lt_of_le_of_ne (hp q (by simp)) hne
      have hfree : (q :: rest).reverse.lookup x = none := by
        refine lookup_reverse_eq_none.2 fun r hr hrx => ?_
        have hqr : q.1 ≤ r.1 := by
          rcases List.mem_cons.1 hr with rfl | hr
          · exact String.le_refl _
          · exact (List.pairwise_cons.1 hrest).1 r hr
        rw [hrx, hx] at hqr
        exact String.lt_irrefl _ (Std.lt_of_lt_of_le hpq hqr)
      rw [hfree, if_pos hx, Option.none_or]
    · rw [if_neg hx, if_neg hx, Option.or_none]

def nameLE (p q : String × α) : Bool := decide (p.1 ≤ q.1)

theorem nameLE_trans (p q r : String × α) (h : nameLE p q = true) (h' : nameLE q r = true) : nameLE p r = true := by
  simp only [nameLE, decide_eq_true_eq] at h h' ⊢
  exact String.le_trans h h'

theorem nameLE_total (p q : String × α) : (nameLE p q || nameLE q p) = true := by
  simpa [nameLE] using String.le_total p.1 q.1

theorem ascending_mergeSort (l : List (String × α)) : Ascending (l.mergeSort nameLE) :=
  (List.pairwise_mergeSort nameLE_trans nameLE_total l).imp of_decide_eq_true

/-- Sorting keeps the order of the bindings of one name. -/
theorem filter_mergeSort (l : List (String × α)) (x : String) :
    (l.mergeSort nameLE).filter (fun p => p.1 == x) = l.filter fun p => p.1 == x := by
  have hequal : (l.filter fun p => p.1 == x).Pairwise fun p q => nameLE p q = true := by
    refine List.Pairwise.imp_of_mem (fun {p q} hp hq _ => ?_) (List.pairwise_of_forall fun _ _ => trivial)
    have hpx : p.1 = x := by simpa using (List.mem_filter.1 hp).2
    have hqx : q.1 = x := by simpa using (List.mem_filter.1 hq).2
    simp [nameLE, hpx, hqx]
  have hsub := (List.sublist_mergeSort nameLE_trans nameLE_total hequal List.filter_sublist).filter fun p => p.1 == x
  rw [List.filter_filter] at hsub
  simp only [Bool.and_self] at hsub
  exact (hsub.eq_of_length ((l.mergeSort_perm nameLE).filter _).length_eq.symm).symm

theorem lookup_filter (l : List (String × α)) (x : String) : (l.filter fun p => p.1 == x).lookup x = l.lookup x := by
  induction l with
  | nil => rfl
  | cons p l ih =>
    rw [lookup_cons_ite, List.filter_cons]
    by_cases h : x = p.1
    · rw [if_pos h, if_pos (beq_iff_eq.2 h.symm), lookup_cons_ite, if_pos h]
    · rw [if_neg h, if_neg (by simpa using Ne.symm h), ih]

theorem lookup_reverse_mergeSort (l : List (String × α)) (x : String) :
    (l.mergeSort nameLE).reverse.lookup x = l.reverse.lookup x := by
  rw [← lookup_filter, List.filter_reverse, filter_mergeSort, ← List.filter_reverse, lookup_filter]

end

namespace Dict

variable {α : Type} {x : String} {a : α}

/-- The bindings all at once: sorted by name, with the last of each name kept. -/
def collect (l : List (String × α)) : Dict α := ⟨keepLast (l.mergeSort nameLE), (ascending_mergeSort l).keepLast⟩

theorem get?_foldl_insert (l : List (String × α)) (d : Dict α) (x : String) :
    (l.foldl (fun d p => d.insert p.1 p.2) d).get? x = (l.reverse.lookup x).or (d.get? x) := by
  induction l generalizing d with
  | nil => rfl
  | cons p l ih =>
    rw [List.foldl_cons, ih, get?_insert, lookup_reverse_cons]
    by_cases h : x = p.1 <;> simp [h]

theorem get?_ofList (l : List (String × α)) (x : String) : (ofList l).get? x = l.reverse.lookup x := by
  rw [ofList, get?_foldl_insert, get?_empty, Option.or_none]

theorem collect_eq_ofList (l : List (String × α)) : collect l = ofList l := by
  refine ext_get? fun x => ?_
  rw [get?_ofList, ← lookup_reverse_mergeSort]
  exact lookup_keepLast (ascending_mergeSort l)

theorem nodup_names (d : Dict α) : (d.entries.map Prod.fst).Nodup :=
  List.pairwise_map.2 (d.increasing.imp fun h => Std.ne_of_lt h)

theorem mem_entries_iff (d : Dict α) : (x, a) ∈ d.entries ↔ d.get? x = some a := by
  rw [get?, List.lookup_eq_some_iff]
  constructor
  · intro h
    obtain ⟨before, after, hentries⟩ := List.append_of_mem h
    have hincreasing := d.increasing
    rw [hentries] at hincreasing
    refine ⟨before, after, hentries, fun p hp => bne_iff_ne.2 ?_⟩
    exact (Std.ne_of_lt ((List.pairwise_append.1 hincreasing).2.2 p hp (x, a) (by simp))).symm
  · rintro ⟨before, after, hentries, -⟩
    rw [hentries]
    simp

theorem mem_names_iff (d : Dict α) : x ∈ d.entries.map Prod.fst ↔ d.get? x ≠ none := by
  rw [Option.ne_none_iff_exists']
  simp only [← mem_entries_iff, List.mem_map, Prod.exists, exists_and_right, exists_eq_right]

theorem size_ofList (l : List (String × α)) : (ofList l).size = (l.map Prod.fst).toFinset.card := by
  rw [size, ← List.length_map (f := Prod.fst), ← List.toFinset_card_of_nodup (nodup_names _)]
  refine congrArg Finset.card (List.toFinset.ext fun x => ?_)
  rw [mem_names_iff, get?_ofList, Ne, lookup_reverse_eq_none]
  simp

end Dict

/-! ### Objects that list bindings -/

namespace Json

def BindingText (levels : Nat) (b : Ident × Expr) (t : List Char) : Prop :=
  ∃ v k, b.2.Spelled v k ∧ k ≤ levels ∧ MemberText (b.1, v) t

section
variable {levels m n : Nat} {b : Ident × Expr} {l : List (Ident × Expr)} {t s s' : List Char} {env : Env}
  {first : Bool}

theorem BindingText.length_pos (h : BindingText levels b t) : 1 ≤ t.length := by
  obtain ⟨v, k, -, -, ht⟩ := h
  exact ht.length_pos

/-- One round: the name is bound to the value, in place of an earlier one. -/
theorem BindingText.bound (h : BindingText levels b t) (hm : levels ≤ m) (hends : EndsNumber s')
    (hkey : nextKey first s = .ok (true, t ++ s')) :
    bindings (expression m) (n + 1) first env s = bindings (expression m) n false (env.insert b.1 b.2) s' := by
  obtain ⟨v, k, hv, hk, u, w, w', hu, hw, hw', rfl⟩ := h
  rw [bindings, bind_ok hkey]
  simp only [List.append_assoc, List.cons_append, if_true]
  rw [bind_ok (hu.string _), bind_ok (colon_blanks hw _), bind_ok (hv.accepts (hk.trans hm) w' s' hw' hends)]

theorem bindings_following (hs : Following (BindingText levels) l s) (hm : levels ≤ m) (rest : List Char) :
    ∀ {env : Env} {n : Nat}, l.length < n → bindings (expression m) n false env (s ++ '\x7d' :: rest) =
      .ok (l.foldl (fun d p => d.insert p.1 p.2) env, rest) := by
  induction hs with
  | last hw =>
    intro env n hn
    obtain ⟨n, rfl⟩ : ∃ k, n = k + 1 := ⟨n - 1, by omega⟩
    rw [bindings, bind_ok (nextKey_close hw rest)]
    rfl
  | @comma b l w w' t s hw hw' ht hfollow ih =>
    intro env n hn
    obtain ⟨n, rfl⟩ : ∃ k, n = k + 1 := ⟨n - 1, by omega⟩
    obtain ⟨v, k, hv, hk, hmember⟩ := ht
    have hkey := nextKey_spelled hw hw' hmember (s ++ '\x7d' :: rest)
    simp only [List.append_assoc, List.cons_append]
    rw [BindingText.bound ⟨v, k, hv, hk, hmember⟩ hm (hfollow.endsNumber (.inr rfl) rest) hkey]
    exact ih (Nat.lt_of_succ_lt_succ hn)

theorem bindings_separated (hs : Separated (BindingText levels) l s) (hm : levels ≤ m) (hn : l.length < n)
    (rest : List Char) : bindings (expression m) n true env (s ++ '\x7d' :: rest) =
      .ok (l.foldl (fun d p => d.insert p.1 p.2) env, rest) := by
  obtain ⟨n, rfl⟩ : ∃ k, n = k + 1 := ⟨n - 1, by omega⟩
  cases hs with
  | empty hw =>
    rw [bindings, bind_ok (nextKey_close hw rest)]
    rfl
  | @first b l w t s hw ht hfollow =>
    obtain ⟨v, k, hv, hk, hmember⟩ := ht
    have hkey := nextKey_spelled_first hw hmember (s ++ '\x7d' :: rest)
    simp only [List.append_assoc]
    rw [BindingText.bound ⟨v, k, hv, hk, hmember⟩ hm (hfollow.endsNumber (.inr rfl) rest) hkey]
    exact bindings_following hfollow hm rest (Nat.lt_of_succ_lt_succ hn)

theorem Accepts.environment (ht : ObjectText (BindingText levels) l t) (hm : levels ≤ m) :
    Accepts (environment (m + 1)) t (Dict.ofList l) := by
  obtain ⟨s, hs, rfl⟩ := ht
  refine .of_peek fun rest _ => ?_
  have hlen : l.length < (s ++ '\x7d' :: rest).length := by
    have := hs.length_le fun _ _ => BindingText.length_pos
    simp only [List.length_append, List.length_cons]
    omega
  have hread : bindings (expression m) (s ++ '\x7d' :: rest).length true .empty (s ++ '\x7d' :: rest) =
      .ok (Dict.ofList l, rest) := bindings_separated hs hm hlen rest
  simp only [List.cons_append, List.append_assoc, List.nil_append]
  exact hread

theorem objectText_bindingTexts (h : ∀ b ∈ l, b.2.levels ≤ levels) :
    ObjectText (BindingText levels) l (object (bindingTexts l)).toList :=
  objectText_compact _ l fun b hb => ⟨_, _, b.2.spelled_json, h b hb, member_compact b.1 b.2.json⟩

end

end Json

open Json

/-- A document that lists these bindings in this order, each value with no more than `levels` brackets open at once. -/
def ListedBy (l : List (Ident × Expr)) (document : String) (levels : Nat) : Prop :=
  ∃ w t w', Blanks w ∧ Blanks w' ∧ ObjectText (BindingText levels) l t ∧ document.toList = w ++ (t ++ w')

/-- Whatever it was built from, an environment shows no more of it than the last value of each name, and shows that in
one way. -/
theorem environments_are_canonical :
    (∀ l : List (Ident × Expr),
      let env : Env := Dict.ofList l
      env = Dict.collect l ∧ env = l.foldl (fun env b => env.insert b.1 b.2) .empty ∧
      (∀ more, more.foldl (fun env b => env.insert b.1 b.2) env = Dict.ofList (l ++ more)) ∧
      (∀ document levels, ListedBy l document levels → levels + 1 ≤ 127 → Env.load document = .ok env) ∧
      (∀ levels, (∀ b ∈ l, nesting b.2.json ≤ levels) → ListedBy l (object (bindingTexts l)) levels) ∧
      (∀ x e, env.get? x = some e ↔ ∃ before after, l = before ++ (x, e) :: after ∧ ∀ b ∈ after, b.1 ≠ x) ∧
      (∀ x, env.get? x = none ↔ ∀ b ∈ l, b.1 ≠ x) ∧
      env.size = (l.map Prod.fst).toFinset.card ∧
      (∀ x e, (x, e) ∈ env.entries ↔ env.get? x = some e) ∧
      (env.entries.map Prod.fst).Pairwise (fun x y => utf8 x < utf8 y)) ∧
    (∀ x y, utf8 x < utf8 y ↔ x.toList < y.toList) ∧
    ∀ env env' : Env, (env = env' ↔ ∀ x, env.get? x = env'.get? x) ∧
      ((∀ x, env.get? x = env'.get? x) → env.text = env'.text ∧ env.json = env'.json) := by
  refine ⟨fun l => ⟨(Dict.collect_eq_ofList l).symm, rfl, fun more => List.foldl_append.symm, ?_, ?_, ?_, ?_,
    Dict.size_ofList l, fun x e => Dict.mem_entries_iff _, ?_⟩, fun x y => utf8_lt_iff,
    fun env env' => ⟨⟨?_, Dict.ext_get?⟩, ?_⟩⟩
  · rintro document levels ⟨w, t, w', hw, hw', ht, hdocument⟩ hlevels
    have haccepts : Accepts (environment (126 + 1)) t (Dict.ofList l) :=
      .environment ht (Nat.le_of_succ_le_succ hlevels)
    exact haccepts.load hw hw' hdocument
  · intro levels h
    refine ⟨[], _, [], .nil, .nil, objectText_bindingTexts fun b hb => ?_, by simp⟩
    rw [← nesting_of_nests b.2.nests_json]
    exact h b hb
  · intro x e
    rw [Dict.get?_ofList, lookup_reverse_eq_some]
  · intro x
    rw [Dict.get?_ofList, lookup_reverse_eq_none]
  · refine List.pairwise_map.2 ((Dict.ofList l).increasing.imp fun h => ?_)
    exact utf8_lt_iff.2 (String.lt_iff.1 h)
  · rintro rfl x
    rfl
  · intro h
    rw [Dict.ext_get? h]
    exact ⟨rfl, rfl⟩

/-- A name listed twice, and two names whose order would be the other way round by their UTF-16 units. -/
theorem relisted_names_load :
    let l : List (Ident × Expr) :=
      [("😀", .lit (.num 1)), ("a", .var "b"), ("\uffff", .lit (.num 3)), ("a", .lit (.num 4))]
    let l' : List (Ident × Expr) := [("\uffff", .lit (.num 3)), ("a", .lit (.num 4)), ("😀", .lit (.num 1))]
    (∀ b ∈ l, nesting b.2.json ≤ 1) ∧ Env.load (object (bindingTexts l)) = .ok (Dict.ofList l) ∧
    (∀ x, (Dict.ofList l).get? x = (Dict.ofList l').get? x) ∧
    Env.text (Dict.ofList l) = Env.text (Dict.ofList l') := by
  intro l l'
  obtain ⟨hbuilt, -, hagree⟩ := environments_are_canonical
  have hnests : ∀ b ∈ l, nesting b.2.json ≤ 1 := by decide +kernel
  have hsame : ∀ x, (Dict.ofList l).get? x = (Dict.ofList l').get? x := by
    have hequal : Dict.ofList l = Dict.ofList l' := by decide +kernel
    intro x
    rw [hequal]
  obtain ⟨-, -, -, hload, hlisted, -⟩ := hbuilt l
  exact ⟨hnests, hload _ 1 (hlisted 1 hnests) (by decide), hsame, ((hagree _ _).2 hsame).1⟩

end WhileLang
