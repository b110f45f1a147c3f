import WhileLang.Proofs.ReadBack

/-! Documents that were cut off. Whatever is missing at the end of the document of a value,
its reader says that the document ended, and not that it is wrong. Only a number can
be cut without a trace, since its first digits are a number too; what stands behind it in
a document is missing then. So no document is the start of another one: readers exist for
values of every depth, though `load` uses only one of them. -/

namespace WhileLang

namespace Json

def RunsOut {α : Type} (r : Reader α) (s : List Char) : Prop := ∃ part, r s = .error (.ended part)

/-- Wherever the text is cut off, the reader finds that the document ended. -/
def NeedsAll {α : Type} (r : Reader α) (t : List Char) : Prop := ∀ p c q, t = p ++ c :: q → RunsOut r p

/-- The same, but what is left may be a value of its own as well. -/
def TakesAll {α : Type} (r : Reader α) (t : List Char) : Prop :=
  ∀ p c q, t = p ++ c :: q → RunsOut r p ∨ ∃ a, r p = .ok (a, [])

structure Whole {α : Type} (r : Reader α) (t : List Char) (a : α) : Prop where
  ok : ∀ rest, EndsNumber rest → r (t ++ rest) = .ok (a, rest)
  needs : NeedsAll r t

section
variable {α β : Type} {r r' : Reader α} {g : α → Reader β} {s t : List Char} {a : α} {c : Char}

theorem RunsOut.bind (h : RunsOut r s) : RunsOut (r >>= g) s := by
  obtain ⟨part, hpart⟩ := h
  exact ⟨part, bind_error hpart⟩

theorem RunsOut.of_eq (h : RunsOut r t) (heq : r' s = r t) : RunsOut r' s := by
  obtain ⟨part, hpart⟩ := h
  exact ⟨part, heq.trans hpart⟩

theorem EndsNumber.of_append (h : EndsNumber (s ++ t)) : EndsNumber s := by
  intro d hd
  refine h d ?_
  cases s with
  | nil => cases hd
  | cons e s => exact hd

namespace NeedsAll

theorem ended {part : Part} : NeedsAll (throw (.ended part) : Reader α) t := fun _ _ _ _ => ⟨part, rfl⟩

theorem takesAll (h : NeedsAll r t) : TakesAll r t := fun p c q ht => .inl (h p c q ht)

/-- A text of two parts: cut in the first one, or behind it. -/
theorem append (hs : NeedsAll r s) (ht : NeedsAll (fun u => r (s ++ u)) t) : NeedsAll r (s ++ t) := by
  intro p c q h
  rcases List.append_eq_append_iff.1 h with ⟨u, rfl, hu⟩ | ⟨u, hu, hq⟩
  · exact ht u c q hu
  · cases u with
    | nil =>
      rw [List.append_nil] at hu
      subst hu
      have := ht [] c q hq.symm
      simpa [RunsOut] using this
    | cons d u => exact hs p d u hu

theorem one (h : RunsOut r []) : NeedsAll r [c] := by
  intro p d q hp
  cases p with
  | nil => exact h
  | cons e p => simp at hp

theorem cons (h : RunsOut r []) (ht : NeedsAll (fun u => r (c :: u)) t) : NeedsAll r (c :: t) :=
  append (s := [c]) (one h) ht

theorem of_eq (h : NeedsAll r' t) (heq : ∀ u, r u = r' u) : NeedsAll r t :=
  fun p c q hp => (h p c q hp).of_eq (heq p)

/-- A reader that looks at the first character and goes on as another one does. -/
theorem of_head (h : NeedsAll r' t) (hc : t.head? = some c) (hnil : RunsOut r [])
    (heq : ∀ u, r (c :: u) = r' (c :: u)) : NeedsAll r t := by
  intro p d q hp
  cases p with
  | nil => exact hnil
  | cons e p =>
    rw [hp] at hc
    cases hc
    exact (h (c :: p) d q hp).of_eq (heq p)

theorem andThen (hr : NeedsAll r t) : NeedsAll (r >>= g) t := fun p c q hp => (hr p c q hp).bind

theorem bind (hr : Whole r s a) (hends : EndsNumber t) (hg : NeedsAll (g a) t) : NeedsAll (r >>= g) (s ++ t) := by
  refine append hr.needs.andThen fun p c q hp => ?_
  exact (hg p c q hp).of_eq (bind_ok (hr.ok p (EndsNumber.of_append (hp ▸ hends))))

end NeedsAll

/-- What is read behind the text misses it, where the text was cut without a trace. -/
theorem TakesAll.bind (hr : TakesAll r s) (hok : ∀ rest, EndsNumber rest → r (s ++ rest) = .ok (a, rest))
    (hends : EndsNumber t) (hg : NeedsAll (g a) t) (hnone : ∀ a, RunsOut (g a) []) : NeedsAll (r >>= g) (s ++ t) := by
  refine NeedsAll.append (fun p c q hp => ?_) fun p c q hp => ?_
  · rcases hr p c q hp with h | ⟨b, hb⟩
    · exact h.bind
    · exact (hnone b).of_eq (bind_ok hb)
  · exact (hg p c q hp).of_eq (bind_ok (hok p (EndsNumber.of_append (hp ▸ hends))))

theorem Whole.map (hr : Whole r t a) (f : α → β) : Whole (do return f (← r)) t (f a) :=
  ⟨fun rest hrest => bind_ok (hr.ok rest hrest), hr.needs.andThen⟩

theorem TakesAll.map (hr : TakesAll r t) (f : α → β) : TakesAll (do return f (← r)) t := by
  intro p c q hp
  rcases hr p c q hp with h | ⟨b, hb⟩
  · exact .inl h.bind
  · exact .inr ⟨f b, bind_ok hb⟩

end

/-! ### Strings -/

section
variable {τ α : Type} {all : List τ} {name : τ → String}

theorem quote_head (x : String) (s : List Char) : ((quote x).toList ++ s).head? = some '"' := by
  rw [quote_toList]
  rfl

/-- An escape that was cut off. -/
theorem NeedsAll.escapeChar (n : Nat) (c : Char) : NeedsAll (stringChars n) (escapeChar c) := by
  cases n with
  | zero => exact .ended
  | succ n =>
    unfold Json.escapeChar
    split
    case h_8 =>
      split
      · next hc =>
        -- the first digit that varies is a zero or a one
        have hdigit : c.toNat / 16 = 0 ∨ c.toNat / 16 = 1 := by omega
        refine .cons ⟨_, rfl⟩ (.cons ⟨_, rfl⟩ (.cons ⟨_, rfl⟩ (.cons ⟨_, rfl⟩ (.cons ⟨_, rfl⟩ (.one ?_)))))
        rcases hdigit with h | h <;> rw [h] <;> exact ⟨_, rfl⟩
      · exact .one ⟨_, rfl⟩
    all_goals exact .cons ⟨_, rfl⟩ (.one ⟨_, rfl⟩)

theorem NeedsAll.stringChars (cs : List Char) (n : Nat) :
    NeedsAll (stringChars n) (cs.flatMap Json.escapeChar ++ ['"']) := by
  induction cs generalizing n with
  | nil => cases n <;> exact .one ⟨_, rfl⟩
  | cons c cs ih =>
    rw [List.flatMap_cons, List.append_assoc]
    refine .append (.escapeChar n c) ?_
    cases n with
    | zero => exact .ended
    | succ n => exact (ih n).andThen.of_eq fun u => stringChars_escapeChar n c u

theorem Whole.string (x : String) : Whole string (quote x).toList x := by
  refine ⟨fun rest _ => string_quote x rest, ?_⟩
  rw [quote_toList]
  refine .cons ⟨_, rfl⟩ fun p c q hp => ?_
  have hchars := NeedsAll.stringChars x.toList p.length p c q hp
  exact (hchars.bind (g := fun cs => return String.ofList cs)).of_eq rfl

theorem Whole.text (x : String) : Whole text (quote x).toList x :=
  ⟨(Reads.text x).ok trivial, (Whole.string x).needs.of_head (by rw [quote_toList]; rfl) ⟨_, rfl⟩ fun _ => rfl⟩

theorem Whole.tag {u : τ} (hfind : all.find? (fun v => name v == name u) = some u) :
    Whole (tag all name) (quote (name u)).toList u :=
  ⟨fun rest _ => tag_quote hfind rest, (Whole.string (name u)).needs.andThen⟩

end

/-! ### Numbers and words -/

section
variable {k : Nat} {p : List Char}

/-- The first digits of a decimal are a decimal too, and a smaller one. -/
theorem toDigits_of_isPrefix (hp : p <+: Nat.toDigits 10 k) (hne : p ≠ []) :
    ∃ m ≤ k, p = Nat.toDigits 10 m ∧ (0 < k → 0 < m) := by
  induction k using Nat.strongRecOn with
  | ind k ih =>
    by_cases hk : k < 10
    · rw [Nat.toDigits_of_lt_base hk] at hp
      rcases List.prefix_cons_iff.1 hp with rfl | ⟨q, rfl, hq⟩
      · exact absurd rfl hne
      · rw [List.prefix_nil.1 hq]
        exact ⟨k, Nat.le_refl k, (Nat.toDigits_of_lt_base hk).symm, id⟩
    · rw [Nat.toDigits_of_base_le (by decide) (Nat.le_of_not_lt hk), List.prefix_concat_iff] at hp
      rcases hp with rfl | hp
      · exact ⟨k, Nat.le_refl k, (Nat.toDigits_of_base_le (by decide) (Nat.le_of_not_lt hk)).symm, id⟩
      · obtain ⟨m, hm, rfl, hpos⟩ := ih (k / 10) (by omega) hp
        exact ⟨m, by omega, rfl, fun _ => hpos (by omega)⟩

/-- The start of an integer is a sign, or an integer between it and zero. -/
theorem ofInt_of_isPrefix {i : Int} (hp : p <+: (Text.ofInt i).toList) (hne : p ≠ []) :
    p = ['-'] ∨ ∃ j, p = (Text.ofInt j).toList ∧ min 0 i ≤ j ∧ j ≤ max 0 i := by
  cases i with
  | ofNat k =>
    rw [ofInt_ofNat_toList] at hp
    obtain ⟨m, hm, rfl, -⟩ := toDigits_of_isPrefix hp hne
    refine .inr ⟨.ofNat m, (ofInt_ofNat_toList m).symm, ?_⟩
    simp only [Int.ofNat_eq_natCast]
    omega
  | negSucc k =>
    rw [ofInt_negSucc_toList] at hp
    obtain rfl | ⟨q, rfl, hq⟩ := List.prefix_cons_iff.1 hp
    · exact absurd rfl hne
    · by_cases hnil : q = []
      · exact .inl (by rw [hnil])
      · obtain ⟨m, hm, rfl, hpos⟩ := toDigits_of_isPrefix hq hnil
        obtain ⟨m, rfl⟩ : ∃ j, m = j + 1 := ⟨m - 1, by omega⟩
        exact .inr ⟨.negSucc m, (ofInt_negSucc_toList m).symm, by omega, by omega⟩

/-- A number without its last digits is a number, and without all of them it is missing. -/
theorem TakesAll.int64 (n : Int64) : TakesAll int64 (Value.num n).text.toList := by
  intro p c q hp
  have hlo := n.le_toInt
  have hhi := n.toInt_lt
  by_cases hnil : p = []
  · exact .inl ⟨.value, by rw [hnil]; rfl⟩
  · obtain rfl | ⟨j, rfl, hj, hj'⟩ := ofInt_of_isPrefix (i := n.toInt) ⟨c :: q, hp.symm⟩ hnil
    · exact .inl ⟨.value, rfl⟩
    · have hword : word? j = some (Int64.ofInt j) := if_pos ⟨by omega, by omega⟩
      have hread : Json.int64 ((Text.ofInt j).toList ++ []) = .ok (Int64.ofInt j, []) :=
        integer_ofInt (by omega) (by unfold maxNatural; omega) hword endsNumber_nil
      rw [List.append_nil] at hread
      exact .inr ⟨_, hread⟩

theorem NeedsAll.boolean (b : Bool) : NeedsAll boolean (Value.bool b).text.toList := by
  cases b with
  | false => exact .cons ⟨_, rfl⟩ (.cons ⟨_, rfl⟩ (.cons ⟨_, rfl⟩ (.cons ⟨_, rfl⟩ (.one ⟨_, rfl⟩))))
  | true => exact .cons ⟨_, rfl⟩ (.cons ⟨_, rfl⟩ (.cons ⟨_, rfl⟩ (.one ⟨_, rfl⟩)))

end

/-! ### Objects and lists -/

section
variable {τ α β : Type} {r : Reader β} {all : List τ} {name : τ → String} {bare : τ → Reader α} {read : τ → Reader α}
  {x : String} {t : List Char}

theorem NeedsAll.colon (h : NeedsAll r t) : NeedsAll (colon >>= fun _ => r) (':' :: t) :=
  .cons ⟨_, rfl⟩ (h.of_eq fun _ => rfl)

/-- A key and what belongs to it. -/
theorem NeedsAll.key {k : String → Reader β} (h : NeedsAll (k x) (':' :: t)) :
    NeedsAll (Json.string >>= k) ((quote x).toList ++ ':' :: t) :=
  .bind (.string x) (endsNumber_cons (by decide) t) h

theorem NeedsAll.firstKey {k : String → Reader β} {stop : Reader β} (h : NeedsAll (k x) (':' :: t)) :
    NeedsAll (do if ← nextKey true then let y ← Json.string; k y else stop) ((quote x).toList ++ ':' :: t) :=
  h.key.of_head (quote_head x _) ⟨_, rfl⟩ fun _ => rfl

theorem NeedsAll.laterKey {k : String → Reader β} {stop : Reader β} (h : NeedsAll (k x) (':' :: t)) :
    NeedsAll (do if ← nextKey false then let y ← Json.string; k y else stop)
      (',' :: ((quote x).toList ++ ':' :: t)) :=
  .cons ⟨_, rfl⟩ (h.key.of_head (quote_head x _) ⟨_, rfl⟩ fun _ => rfl)

def tagRest (read : τ → Reader α) (u : τ) : Reader α := do
  colon
  let a ← read u
  tagEnd a

theorem Whole.tagged {u : τ} {body : String} {a : α} (hfind : all.find? (fun v => name v == name u) = some u)
    (hok : ∀ rest, EndsNumber rest → read u (body.toList ++ rest) = .ok (a, rest)) (h : TakesAll (read u) body.toList) :
    Whole (tagged all name bare (some read)) (object [(name u, body)]).toList a := by
  refine ⟨(Reads.tagged hfind (.of_ok hok)).ok trivial, ?_⟩
  have hbody : NeedsAll (read u >>= tagEnd) (body.toList ++ ['\x7d']) :=
    h.bind hok (endsNumber_cons (by decide) []) (.one ⟨_, rfl⟩) fun _ => ⟨_, rfl⟩
  have htag : NeedsAll (Json.tag all name >>= tagRest read)
      ((quote (name u)).toList ++ ':' :: (body.toList ++ ['\x7d'])) :=
    .bind (.tag hfind) (endsNumber_cons (by decide) _) hbody.colon
  rw [object_one_toList]
  exact .cons ⟨_, rfl⟩ (htag.of_head (quote_head _ _) ⟨_, rfl⟩ fun _ => rfl)

theorem NeedsAll.tagged_bare {u : τ} (hfind : all.find? (fun v => name v == name u) = some u)
    (content : Option (τ → Reader α)) : NeedsAll (Json.tagged all name bare content) (quote (name u)).toList := by
  have htag : NeedsAll (Json.tag all name >>= bare) (quote (name u)).toList := (Whole.tag hfind).needs.andThen
  exact htag.of_head (by rw [quote_toList]; rfl) ⟨_, rfl⟩ fun _ => rfl

end

theorem Whole.pair {α : Type} {read : Reader α} {a b : α} {v w wanted : String} (ha : Whole read v.toList a)
    (hb : Whole read w.toList b) (hv : ∃ s, v.toList = '\x7b' :: s) (hw : ∃ s, w.toList = '\x7b' :: s) :
    Whole (pair wanted (some read)) (list [v, w]).toList (a, b) := by
  refine ⟨(Reads.pair (.of_ok hb.ok) hw (.of_ok ha.ok) hv).ok ⟨trivial, trivial⟩, ?_⟩
  obtain ⟨s, hs⟩ := hv
  obtain ⟨s', hs'⟩ := hw
  have hclose : NeedsAll (read >>= fun b => do closeList; return (a, b)) (w.toList ++ [']']) :=
    .bind hb (endsNumber_cons (by decide) []) (.one ⟨_, rfl⟩)
  have hsecond : NeedsAll (pairEnd wanted read a) (',' :: (w.toList ++ [']'])) :=
    .cons ⟨_, rfl⟩ (hclose.of_head (c := '\x7b') (by rw [hs']; rfl) ⟨_, rfl⟩ fun _ => rfl)
  have hfirst : NeedsAll (read >>= pairEnd wanted read) (v.toList ++ ',' :: (w.toList ++ [']'])) :=
    .bind ha (endsNumber_cons (by decide) _) hsecond
  rw [list_pair_toList, List.append_assoc, List.cons_append]
  exact .cons ⟨_, rfl⟩ (hfirst.of_head (c := '\x7b') (by rw [hs]; rfl) ⟨_, rfl⟩ fun _ => rfl)

/-! ### Records -/

section
variable {δ α : Type} {l : Layout δ α} {d d' : δ} {ms : List (String × String)} {a : α}

/-- Each member fills a field that is still open, and is read as a whole only. -/
inductive Layout.Needs (l : Layout δ α) : δ → List (String × String) → δ → Prop where
  | done {d : δ} : Needs l d [] d
  | field {x v : String} {f : Field δ} {d d₁ d₂ : δ} {ms : List (String × String)} :
    l.field? x = some f → f.filled d = false → Whole (f.read d) v.toList d₁ → Needs l d₁ ms d₂ →
    Needs l d ((x, v) :: ms) d₂

theorem Layout.Needs.fills (h : l.Needs d ms d') : ∃ fits, fits ∧ l.Fills d ms fits d' := by
  induction h with
  | done => exact ⟨True, trivial, .done⟩
  | field hf hd hv _ ih =>
    obtain ⟨fits, hfits, hms⟩ := ih
    exact ⟨True ∧ fits, ⟨trivial, hfits⟩, .field hf hd (.of_ok hv.ok) hms⟩

theorem endsNumber_tail (ms : List (String × String)) : EndsNumber (tailText ms ++ ['\x7d']) :=
  (endsNumber_tailText ms []).of_append

/-- The loop needs the closing brace, whatever fuel it has: without fuel the document ended too. -/
theorem Layout.Needs.tail (h : l.Needs d ms d') (n : Nat) :
    NeedsAll (l.members n false d) (tailText ms ++ ['\x7d']) := by
  induction h generalizing n with
  | done => cases n <;> exact .one ⟨_, rfl⟩
  | @field x v f d d₁ d₂ ms hf hd hv _ ih =>
    cases n with
    | zero => exact .ended
    | succ n =>
      have hvalue : NeedsAll (f.read d >>= l.members n false) (v.toList ++ (tailText ms ++ ['\x7d'])) :=
        .bind hv (endsNumber_tail ms) (ih n)
      simp only [tailText, memberText, List.cons_append, List.append_assoc]
      refine NeedsAll.laterKey (x := x) ?_
      simp only [hf, hd]
      exact hvalue.colon

theorem Layout.Needs.members (h : l.Needs d ms d') (n : Nat) :
    NeedsAll (l.members n true d) (membersText ms ++ ['\x7d']) := by
  cases n with
  | zero => exact .ended
  | succ n =>
    cases h with
    | done => exact .one ⟨_, rfl⟩
    | @field x v f d d₁ d₂ ms hf hd hv hms =>
      have hvalue : NeedsAll (f.read d >>= l.members n false) (v.toList ++ (tailText ms ++ ['\x7d'])) :=
        .bind hv (endsNumber_tail ms) (hms.tail n)
      simp only [membersText, memberText, List.cons_append, List.append_assoc]
      refine NeedsAll.firstKey (x := x) ?_
      simp only [hf, hd]
      exact hvalue.colon

theorem Whole.record {wanted : String} (h : l.Needs l.blank ms d) (hbuild : l.build d = .ok a) :
    Whole (record wanted (some l)) (object ms).toList a := by
  obtain ⟨fits, hfits, hms⟩ := h.fills
  refine ⟨(Reads.record hms hbuild).ok hfits, ?_⟩
  rw [object_toList]
  refine .cons ⟨_, rfl⟩ fun p c q hp => ?_
  have hmembers := h.members p.length p c q hp
  exact (hmembers.bind (g := l.finished)).of_eq rfl

end

/-! ### Bindings -/

section
variable {k : Nat}

theorem NeedsAll.binding {x : String} {e : Expr} {env : Env} {t : List Char} {n : Nat}
    (he : Whole (expression k) e.json.toList e) (hends : EndsNumber t)
    (h : NeedsAll (bindings (expression k) n false (env.insert x e)) t) :
    NeedsAll (do Json.colon; let e ← expression k; bindings (expression k) n false (env.insert x e))
      (':' :: (e.json.toList ++ t)) :=
  (NeedsAll.bind (g := fun e => bindings (expression k) n false (env.insert x e)) he hends h).colon

theorem NeedsAll.bindings_tail (l : List (String × Expr)) (h : ∀ b ∈ l, Whole (expression k) b.2.json.toList b.2)
    (env : Env) (n : Nat) :
    NeedsAll (bindings (expression k) n false env) (tailText (bindingTexts l) ++ ['\x7d']) := by
  induction l generalizing n env with
  | nil => cases n <;> exact .one ⟨_, rfl⟩
  | cons b l ih =>
    obtain ⟨hb, hl⟩ := List.forall_mem_cons.1 h
    cases n with
    | zero => exact .ended
    | succ n =>
      have hbinding := NeedsAll.binding hb (endsNumber_tail _) (ih hl (env.insert b.1 b.2) n)
      simp only [bindingTexts, List.map_cons, tailText, memberText, List.cons_append, List.append_assoc]
      exact hbinding.laterKey

theorem NeedsAll.bindings (l : List (String × Expr)) (h : ∀ b ∈ l, Whole (expression k) b.2.json.toList b.2)
    (env : Env) (n : Nat) :
    NeedsAll (bindings (expression k) n true env) (membersText (bindingTexts l) ++ ['\x7d']) := by
  cases n with
  | zero => exact .ended
  | succ n =>
    cases l with
    | nil => exact .one ⟨_, rfl⟩
    | cons b l =>
      obtain ⟨hb, hl⟩ := List.forall_mem_cons.1 h
      have hbinding := NeedsAll.binding hb (endsNumber_tail _) (NeedsAll.bindings_tail l hl (env.insert b.1 b.2) n)
      simp only [bindingTexts, List.map_cons, membersText, memberText, List.cons_append, List.append_assoc]
      exact hbinding.firstKey

end

/-! ### Values -/

/-- A value without parts takes one level. -/
theorem Whole.leaf {k : Kind} {v : String} {e : Expr} (hreads : ∀ item, Reads (exprContent item k) v.toList True e)
    (h : ∀ item, TakesAll (exprContent item k) v.toList) :
    ∀ n, 1 ≤ n → Whole (expression n) (object [(k.name, v)]).toList e
  | 1, _ => .tagged (Kind.find_name k) ((hreads _).ok trivial) (h _)
  | _ + 2, _ => .tagged (Kind.find_name k) ((hreads _).ok trivial) (h _)

theorem Whole.operation {op : Op} {item : Option (Reader Expr)} {a b : Expr} {t : List Char}
    (h : Whole (Json.pair ("tuple variant Expression::" ++ op.kind.name) item) t (a, b)) :
    Whole (exprContent item op.kind) t (.binary op a b) := by
  cases op <;> exact h.map fun q => Expr.binary _ q.1 q.2

/-- A record takes two levels. -/
theorem Whole.stmtRecord {f : Form} {ms : List (String × String)} {s : Stmt} {n : Nat}
    (h : Whole (stmtContent (some ⟨expression n, statement n⟩) f) (object ms).toList s) :
    Whole (statement (n + 2)) (object [(f.name, object ms)]).toList s :=
  .tagged (Form.find_name f) h.ok h.needs.takesAll

end Json

open Json

theorem Value.takesAll (v : Value) (item : Option (Reader Expr)) :
    TakesAll (exprContent item v.kind) v.text.toList := by
  cases v with
  | num n => exact (TakesAll.int64 n).map fun n => Expr.lit (.num n)
  | bool b => exact (NeedsAll.boolean b).andThen.takesAll

theorem Expr.whole (e : Expr) {n : Nat} (h : e.levels ≤ n) : Whole (expression n) e.json.toList e := by
  induction e generalizing n with
  | lit v => exact .leaf v.reads v.takesAll n h
  | var x =>
    exact Whole.leaf (k := .ident) (fun _ => (Reads.text x).map Expr.var)
      (fun _ => (Whole.text x).needs.andThen.takesAll) n h
  | binary op l r ihl ihr =>
    rw [Expr.levels] at h
    obtain ⟨n, rfl⟩ : ∃ k, n = k + 2 := ⟨n - 2, by omega⟩
    have hl : Whole (expression n) l.json.toList l := ihl (by omega)
    have hr : Whole (expression n) r.json.toList r := ihr (by omega)
    have hpair : Whole (exprContent (some (expression n)) op.kind) (list [l.json, r.json]).toList (.binary op l r) :=
      .operation (.pair hl hr l.json_starts r.json_starts)
    exact .tagged (Kind.find_name op.kind) hpair.ok hpair.needs.takesAll

theorem Stmt.whole_skip (n : Nat) : Whole (statement n) Stmt.skip.json.toList .skip := by
  refine ⟨(reads_skip n).ok trivial, ?_⟩
  have htag : ∀ content, NeedsAll (stmtLevel content) (quote Form.doNothing.name).toList :=
    NeedsAll.tagged_bare (Form.find_name .doNothing)
  match n with
  | 0 => exact htag _
  | 1 => exact htag _
  | n + 2 => exact htag _

theorem Stmt.whole (s : Stmt) {n : Nat} (h : s.levels ≤ n) : Whole (statement n) s.json.toList s := by
  induction s generalizing n with
  | skip => exact whole_skip n
  | assign x e =>
    rw [Stmt.levels] at h
    obtain ⟨n, rfl⟩ : ∃ k, n = k + 2 := ⟨n - 2, by omega⟩
    have he : Whole (expression n) e.json.toList e := e.whole (by omega)
    exact Whole.stmtRecord (f := .assign)
      (.record (.field rfl rfl ((Whole.text x).map _) (.field rfl rfl (he.map _) .done)) rfl)
  | ite c t f iht ihf =>
    rw [Stmt.levels] at h
    obtain ⟨n, rfl⟩ : ∃ k, n = k + 2 := ⟨n - 2, by omega⟩
    have hc : Whole (expression n) c.json.toList c := c.whole (by omega)
    have ht : Whole (statement n) t.json.toList t := iht (by omega)
    have hf : Whole (statement n) f.json.toList f := ihf (by omega)
    exact Whole.stmtRecord (f := .choice)
      (.record (.field rfl rfl (hc.map _) (.field rfl rfl (ht.map _) (.field rfl rfl (hf.map _) .done))) rfl)
  | seq a b iha ihb =>
    rw [Stmt.levels] at h
    obtain ⟨n, rfl⟩ : ∃ k, n = k + 2 := ⟨n - 2, by omega⟩
    have ha : Whole (statement n) a.json.toList a := iha (by omega)
    have hb : Whole (statement n) b.json.toList b := ihb (by omega)
    exact Whole.stmtRecord (f := .sequence)
      (.record (.field rfl rfl (ha.map _) (.field rfl rfl (hb.map _) .done)) rfl)
  | loop c body ih =>
    rw [Stmt.levels] at h
    obtain ⟨n, rfl⟩ : ∃ k, n = k + 2 := ⟨n - 2, by omega⟩
    have hc : Whole (expression n) c.json.toList c := c.whole (by omega)
    have hbody : Whole (statement n) body.json.toList body := ih (by omega)
    exact Whole.stmtRecord (f := .loop)
      (.record (.field rfl rfl (hc.map _) (.field rfl rfl (hbody.map _) .done)) rfl)

theorem Env.whole (env : Env) {n : Nat} (h : env.levels ≤ n) : Whole (environment n) env.json.toList env := by
  refine ⟨(env.reads n).ok h, ?_⟩
  obtain ⟨n, rfl⟩ : ∃ k, n = k + 1 := ⟨n - 1, by rw [Env.levels] at h; omega⟩
  have hjson : env.json.toList = '\x7b' :: (membersText (bindingTexts env.entries) ++ ['\x7d']) := object_toList _
  rw [hjson]
  have hvalues : ∀ b ∈ env.entries, Whole (expression n) b.2.json.toList b.2 :=
    fun b hb => b.2.whole (Env.levels_le_succ.1 h b hb)
  refine .cons ⟨_, rfl⟩ fun p c q hp => ?_
  exact (NeedsAll.bindings env.entries hvalues .empty p.length p c q hp).of_eq rfl

theorem Program.whole (p : Program) {n : Nat} (h : p.levels ≤ n) : Whole (program n) p.json.toList p := by
  rw [Program.levels] at h
  obtain ⟨n, rfl⟩ : ∃ k, n = k + 1 := ⟨n - 1, by omega⟩
  have hs : Whole (Json.statement n) p.statement.json.toList p.statement := p.statement.whole (by omega)
  exact .record (.field rfl rfl (hs.map _) .done) rfl

/-! ### Documents -/

def CutOff (p t : String) : Prop := p.toList <+: t.toList ∧ p ≠ t

instance (p t : String) : Decidable (CutOff p t) := inferInstanceAs (Decidable (_ ∧ _))

def Truncated {α : Type} (o : Except ReadError α) : Prop := ∃ e, o = .error e ∧ e.category = .truncated

theorem Json.Whole.truncated {α : Type} {r : Reader α} {a : α} {p document : String} (h : Whole r document.toList a)
    (hp : CutOff p document) : Truncated (load r p) := by
  obtain ⟨⟨q, hq⟩, hne⟩ := hp
  cases q with
  | nil => exact absurd (String.toList_injective (by rw [← hq, List.append_nil])) hne
  | cons c q =>
    obtain ⟨part, hpart⟩ := h.needs p.toList c q hq.symm
    exact ⟨.ended part, load_error hpart, rfl⟩

/-- Whatever is missing at the end of the document of a value, its reading fails for that reason. -/
theorem cut_documents_are_truncated :
    (∀ s : Stmt, nesting s.json ≤ 127 → ∀ p, CutOff p s.json → Truncated (Stmt.load p)) ∧
    (∀ e : Expr, nesting e.json ≤ 127 → ∀ p, CutOff p e.json → Truncated (Expr.load p)) ∧
    (∀ env : Env, nesting env.json ≤ 127 → ∀ p, CutOff p env.json → Truncated (Env.load p)) ∧
    (∀ x : Ident, nesting (quote x) ≤ 127 → ∀ p, CutOff p (quote x) → Truncated (loadIdent p)) ∧
    (∀ q : Program, nesting q.json ≤ 127 → ∀ p, CutOff p q.json → Truncated (Program.load p)) := by
  refine ⟨fun s h p hp => ?_, fun e h p hp => ?_, fun env h p hp => ?_, fun x _ p hp => ?_, fun q h p hp => ?_⟩
  · rw [nesting_of_nests s.nests_json] at h
    exact (s.whole h).truncated hp
  · rw [nesting_of_nests e.nests_json] at h
    exact (e.whole h).truncated hp
  · rw [nesting_of_nests env.nests_json] at h
    exact (env.whole h).truncated hp
  · exact (Whole.text x).truncated hp
  · rw [nesting_of_nests q.nests_json] at h
    exact (q.whole h).truncated hp

/-- Cut inside a number and inside an escape. -/
theorem cut_assignment_is_truncated :
    (let s := Stmt.assign "x" (.lit (.num (-12)))
     let p := "\x7b\"Assign\":\x7b\"variable\":\"x\",\"expression\":\x7b\"Number\":-1"
     nesting s.json ≤ 127 ∧ CutOff p s.json ∧ Truncated (Stmt.load p)) ∧
    CutOff "\"\\u001" (quote "\x1b") ∧ Truncated (loadIdent "\"\\u001") := by
  obtain ⟨hstmt, -, -, hident, -⟩ := cut_documents_are_truncated
  have hnests : nesting (Stmt.assign "x" (.lit (.num (-12)))).json ≤ 127 := by decide +kernel
  exact ⟨⟨hnests, by decide +kernel, hstmt _ hnests _ (by decide +kernel)⟩, by decide +kernel,
    hident "\x1b" (by decide +kernel) _ (by decide +kernel)⟩

/-! ### No document starts another one -/

theorem Json.Whole.eq_of_isPrefix {α : Type} {r : Reader α} {t t' : List Char} {a b : α} (h : Whole r t a)
    (h' : Whole r t' b) (hp : t <+: t') : a = b := by
  have ha := h.ok [] endsNumber_nil
  have hb := h'.ok [] endsNumber_nil
  rw [List.append_nil] at ha hb
  obtain ⟨q, rfl⟩ := hp
  cases q with
  | nil =>
    rw [List.append_nil, ha] at hb
    exact (Prod.mk.inj (Except.ok.inj hb)).1
  | cons c q =>
    -- the shorter text is a value, so its reader did not run out
    obtain ⟨part, hpart⟩ := h'.needs t c q rfl
    rw [ha] at hpart
    cases hpart

/-- If every value has a reader, and any two of them a common one, then no text starts another. -/
theorem Json.isPrefix_iff_eq {α : Type} {text : α → String} {levels : α → Nat} {reader : Nat → Reader α}
    (h : ∀ (a : α) {n : Nat}, levels a ≤ n → Whole (reader n) (text a).toList a) (a b : α) :
    (text a).toList <+: (text b).toList ↔ a = b := by
  refine ⟨fun hp => ?_, fun hab => hab ▸ List.prefix_refl _⟩
  have ha := h a (Nat.le_max_left (levels a) (levels b))
  have hb := h b (Nat.le_max_right (levels a) (levels b))
  exact ha.eq_of_isPrefix hb hp

theorem Json.injective_of_isPrefix {α : Type} {text : α → String}
    (h : ∀ a b, (text a).toList <+: (text b).toList ↔ a = b) : Function.Injective text := by
  intro a b hab
  exact (h a b).1 (hab ▸ List.prefix_refl _)

/-- However deep two values are, also where no document of theirs can be loaded. -/
theorem compact_documents_are_prefix_free :
    (∀ s₁ s₂ : Stmt, s₁.json.toList <+: s₂.json.toList ↔ s₁ = s₂) ∧
    (∀ e₁ e₂ : Expr, e₁.json.toList <+: e₂.json.toList ↔ e₁ = e₂) ∧
    (∀ env₁ env₂ : Env, env₁.json.toList <+: env₂.json.toList ↔ env₁ = env₂) ∧
    Function.Injective Stmt.json ∧ Function.Injective Expr.json ∧ Function.Injective Env.json := by
  have hstmt := Json.isPrefix_iff_eq Stmt.whole
  have hexpr := Json.isPrefix_iff_eq Expr.whole
  have henv := Json.isPrefix_iff_eq Env.whole
  exact ⟨hstmt, hexpr, henv, Json.injective_of_isPrefix hstmt, Json.injective_of_isPrefix hexpr,
    Json.injective_of_isPrefix henv⟩

end WhileLang
