/-! Finite maps from names, kept as a list that strictly increases in the name.
So each map has one representation: two with the same look-ups are equal, and
print alike whatever the order in which they were built. -/

namespace WhileLang

/-- Binds `x` to `a` at its place in the order, in place of an earlier binding of `x`. -/
def insertSorted {α : Type} (x : String) (a : α) : List (String × α) → List (String × α)
  | [] => [(x, a)]
  | (y, b) :: rest =>
    if x < y then (x, a) :: (y, b) :: rest
    else if x = y then (x, a) :: rest
    else (y, b) :: insertSorted x a rest

def Increasing {α : Type} (l : List (String × α)) : Prop := l.Pairwise fun p q => p.1 < q.1

section
variable {α : Type} {x : String} {a : α} {l : List (String × α)}

theorem mem_insertSorted {p : String × α} (h : p ∈ insertSorted x a l) : p = (x, a) ∨ p ∈ l := by
  induction l with
  | nil => simpa [insertSorted] using h
  | cons q rest ih => grind [insertSorted]

theorem Increasing.insertSorted (h : Increasing l) (x : String) (a : α) :
    Increasing (insertSorted x a l) := by
  induction l with
  | nil => exact List.pairwise_singleton ..
  | cons q rest ih =>
    obtain ⟨y, b⟩ := q
    obtain ⟨hy, hr⟩ := List.pairwise_cons.1 h
    rw [WhileLang.insertSorted]
    split
    · next hlt =>
      refine List.pairwise_cons.2 ⟨fun p hp => ?_, h⟩
      rcases List.mem_cons.1 hp with rfl | hp
      · exact hlt
      · exact String.lt_trans hlt (hy p hp)
    · split
      · next heq => subst heq; exact List.pairwise_cons.2 ⟨hy, hr⟩
      · next hnlt hne =>
        refine List.pairwise_cons.2 ⟨fun p hp => ?_, ih hr⟩
        rcases mem_insertSorted hp with rfl | hp
        · exact Std.lt_of_le_of_ne (String.not_lt.1 hnlt) (Ne.symm hne)
        · exact hy p hp

theorem lookup_insertSorted (x y : String) (a : α) (l : List (String × α)) :
    (insertSorted x a l).lookup y = if y = x then some a else l.lookup y := by
  induction l with
  | nil => simp [insertSorted, List.lookup_cons]; split <;> simp_all
  | cons q rest ih => grind [insertSorted]

theorem insertSorted_of_lt (h : ∀ p ∈ l, p.1 < x) : insertSorted x a l = l ++ [(x, a)] := by
  induction l with
  | nil => rfl
  | cons q rest ih =>
    obtain ⟨y, b⟩ := q
    have hy : y < x := h (y, b) (by simp)
    have hlt : ¬ x < y := fun hx => String.lt_irrefl _ (String.lt_trans hx hy)
    have hne : x ≠ y := fun e => String.lt_irrefl _ (e ▸ hy)
    rw [insertSorted, if_neg hlt, if_neg hne, ih fun p hp => h p (by simp [hp]), List.cons_append]

theorem lookup_eq_none_of_lt (h : ∀ p ∈ l, x < p.1) : l.lookup x = none := by
  induction l with
  | nil => rfl
  | cons q rest ih =>
    obtain ⟨y, b⟩ := q
    have hx : x ≠ y := fun e => String.lt_irrefl _ (e ▸ h (y, b) (by simp))
    rw [List.lookup_cons, beq_eq_false_iff_ne.2 hx]
    exact ih fun p hp => h p (by simp [hp])

/-- A name below the first one is missing. -/
theorem Increasing.lookup_eq_none {y : String} {b : α} (h : Increasing ((y, b) :: l))
    (hx : x < y) : ((y, b) :: l).lookup x = none :=
  lookup_eq_none_of_lt fun p hp =>
    (List.mem_cons.1 hp).elim (· ▸ hx) fun hp =>
      String.lt_trans hx ((List.pairwise_cons.1 h).1 p hp)

theorem Increasing.ext {m : List (String × α)} (hl : Increasing l) (hm : Increasing m)
    (h : ∀ y, l.lookup y = m.lookup y) : l = m := by
  induction l generalizing m with
  | nil =>
    cases m with
    | nil => rfl
    | cons q m =>
      obtain ⟨y, b⟩ := q
      have := h y
      simp at this
  | cons p l ih =>
    obtain ⟨x, a⟩ := p
    cases m with
    | nil => have := h x; simp at this
    | cons q m =>
      obtain ⟨y, b⟩ := q
      have hxy : x = y := by
        rcases Std.lt_trichotomy x y with hlt | heq | hlt
        · have := h x; rw [hm.lookup_eq_none hlt] at this; simp at this
        · exact heq
        · have := h y; rw [hl.lookup_eq_none hlt] at this; simp at this
      subst hxy
      have hab : a = b := by simpa [List.lookup_cons] using h x
      subst hab
      obtain ⟨hx, hl'⟩ := List.pairwise_cons.1 hl
      obtain ⟨hy, hm'⟩ := List.pairwise_cons.1 hm
      refine congrArg _ (ih hl' hm' fun z => ?_)
      by_cases hz : z = x
      · rw [hz, lookup_eq_none_of_lt hx, lookup_eq_none_of_lt hy]
      · simpa [List.lookup_cons, beq_eq_false_iff_ne.2 hz] using h z

end

structure Dict (α : Type) where
  entries : List (String × α)
  increasing : Increasing entries
  deriving DecidableEq

namespace Dict

variable {α : Type}

def empty : Dict α := ⟨[], .nil⟩

def insert (d : Dict α) (x : String) (a : α) : Dict α :=
  ⟨insertSorted x a d.entries, d.increasing.insertSorted x a⟩

/-- Of several bindings of one name the last one counts. -/
def ofList (l : List (String × α)) : Dict α := l.foldl (fun d p => d.insert p.1 p.2) empty

def get? (d : Dict α) (x : String) : Option α := d.entries.lookup x

def size (d : Dict α) : Nat := d.entries.length

def isEmpty (d : Dict α) : Bool := d.entries.isEmpty

theorem get?_empty (x : String) : (empty : Dict α).get? x = none := rfl

theorem get?_insert (d : Dict α) (x y : String) (a : α) :
    (d.insert x a).get? y = if y = x then some a else d.get? y :=
  lookup_insertSorted x y a d.entries

theorem get?_insert_self (d : Dict α) (x : String) (a : α) : (d.insert x a).get? x = some a := by
  rw [get?_insert, if_pos rfl]

theorem ext_get? {d e : Dict α} (h : ∀ x, d.get? x = e.get? x) : d = e := by
  obtain ⟨l, hl⟩ := d
  obtain ⟨m, hm⟩ := e
  have := hl.ext hm h
  subst this
  rfl

/-- Bindings that come in order are put behind the ones that are there. -/
theorem entries_foldl_insert (d : Dict α) (l : List (String × α)) (h : Increasing (d.entries ++ l)) :
    (l.foldl (fun d p => d.insert p.1 p.2) d).entries = d.entries ++ l := by
  induction l generalizing d with
  | nil => exact (List.append_nil _).symm
  | cons p l ih =>
    have hlast : (d.insert p.1 p.2).entries = d.entries ++ [p] :=
      insertSorted_of_lt fun q hq => (List.pairwise_append.1 h).2.2 q hq p (by simp)
    have hnext := ih (d.insert p.1 p.2)
    rw [hlast, List.append_assoc, List.singleton_append] at hnext
    exact hnext h

theorem eq_of_entries {d e : Dict α} (h : d.entries = e.entries) : d = e := by
  cases d
  cases e
  cases h
  rfl

theorem ofList_entries (d : Dict α) : ofList d.entries = d :=
  eq_of_entries (entries_foldl_insert empty d.entries d.increasing)

end Dict

end WhileLang
