import WhileLang.Proofs.QuotedText
import WhileLang.Proofs.ValueText

/-! The source of a program determines the program. Generated text nests pieces
that begin and end alike, so equality of two sources says little about their
parts. What carries the induction is more: a generated piece ends where it
ends, whatever text comes behind it (`Delimited`). -/

namespace WhileLang

open Code

/-- The text of a value shows which value it is and where it ends. -/
def Delimited {α : Type} (text : α → String) : Prop :=
  ∀ {a b : α} {r₁ r₂ : List Char}, (text a).toList ++ r₁ = (text b).toList ++ r₂ → a = b ∧ r₁ = r₂

theorem Delimited.injective {α : Type} {text : α → String} (h : Delimited text) : Function.Injective text := by
  intro a b hab
  exact (h (congrArg (fun s => s.toList ++ []) hab)).1

def agree (p q : List Char) : Bool := (p.zip q).all fun c => c.1 == c.2

theorem agree_of_append_eq : ∀ {p q r₁ r₂ : List Char}, p ++ r₁ = q ++ r₂ → agree p q = true
  | [], _, _, _, _ => rfl
  | _ :: _, [], _, _, _ => rfl
  | c :: p, d :: q, r₁, r₂, h => by
    obtain ⟨rfl, h'⟩ := List.cons.inj h
    have ih := agree_of_append_eq h'
    simpa [agree] using ih

theorem Text.quoted_delimited : Delimited Text.quoted := by
  intro a b r₁ r₂ h
  have hread := congrArg readQuoted? h
  rw [readQuoted?_quoted, readQuoted?_quoted] at hread
  obtain ⟨hs, hr⟩ := Prod.mk.inj (Option.some.inj hread)
  exact ⟨String.toList_inj.1 hs, hr⟩

theorem Op.emitted_delimited : Delimited Op.emitted := by
  intro a b r₁ r₂ h
  cases a <;> cases b
  case add.add => exact ⟨rfl, List.append_cancel_left h⟩
  case mul.mul => exact ⟨rfl, List.append_cancel_left h⟩
  case lt.lt => exact ⟨rfl, List.append_cancel_left h⟩
  all_goals exact absurd (agree_of_append_eq h) (by decide)

theorem Expr.source_delimited : Delimited Expr.source := by
  intro e₁
  induction e₁ <;> intro e₂ r₁ r₂ h <;> cases e₂ <;>
    simp only [Expr.source_lit, Expr.source_var, Expr.source_binary, String.toList_append, List.append_assoc] at h
  case lit.lit v w =>
    have hbody := List.append_cancel_left h
    obtain ⟨hv, hr⟩ := Text.quoted_delimited (List.append_cancel_left hbody)
    exact ⟨congrArg Expr.lit (Value.text_injective hv), List.append_cancel_left hr⟩
  case var.var x y =>
    have hbody := List.append_cancel_left h
    obtain ⟨hx, hr⟩ := Text.quoted_delimited (List.append_cancel_left hbody)
    exact ⟨congrArg Expr.var hx, List.append_cancel_left hr⟩
  case binary.binary op a b iha ihb op' a' b' =>
    have hbody := List.append_cancel_left h
    obtain ⟨rfl, hb⟩ := iha (List.append_cancel_left hbody)
    obtain ⟨rfl, hop⟩ := ihb (List.append_cancel_left hb)
    obtain ⟨rfl, hr⟩ := Op.emitted_delimited (List.append_cancel_left hop)
    exact ⟨rfl, List.append_cancel_left hr⟩
  -- closures that open alike differ in the first characters of their bodies
  case var.binary | binary.var => exact absurd (agree_of_append_eq (List.append_cancel_left h)) (by decide)
  all_goals exact absurd (agree_of_append_eq h) (by decide)

/-- The source of a sequence has its second statement first. -/
theorem Stmt.source_delimited : Delimited Stmt.source := by
  intro s₁
  induction s₁ <;> intro s₂ r₁ r₂ h <;> cases s₂ <;>
    simp only [Stmt.source_skip, Stmt.source_assign, Stmt.source_ite, Stmt.source_seq, Stmt.source_loop,
      String.toList_append, List.append_assoc] at h
  case skip.skip => exact ⟨rfl, List.append_cancel_left (List.append_cancel_left h)⟩
  case assign.assign x e y e' =>
    have hbody := List.append_cancel_left h
    obtain ⟨rfl, hx⟩ := Expr.source_delimited (List.append_cancel_left hbody)
    obtain ⟨rfl, hr⟩ := Text.quoted_delimited (List.append_cancel_left hx)
    exact ⟨rfl, List.append_cancel_left hr⟩
  case ite.ite c t f iht ihf c' t' f' =>
    have hbody := List.append_cancel_left h
    obtain ⟨rfl, ht⟩ := Expr.source_delimited (List.append_cancel_left hbody)
    obtain ⟨rfl, hf⟩ := iht (List.append_cancel_left ht)
    obtain ⟨rfl, hr⟩ := ihf (List.append_cancel_left hf)
    exact ⟨rfl, List.append_cancel_left hr⟩
  case seq.seq a b iha ihb a' b' =>
    have hbody := List.append_cancel_left h
    obtain ⟨rfl, ha⟩ := ihb (List.append_cancel_left hbody)
    obtain ⟨rfl, hr⟩ := iha (List.append_cancel_left ha)
    exact ⟨rfl, List.append_cancel_left hr⟩
  case loop.loop c body ih c' body' =>
    have hbody := List.append_cancel_left h
    obtain ⟨rfl, hagain⟩ := Expr.source_delimited (List.append_cancel_left hbody)
    obtain ⟨rfl, hr⟩ := ih (List.append_cancel_left hagain)
    exact ⟨rfl, List.append_cancel_left hr⟩
  case skip.ite | skip.seq | ite.skip | ite.seq | seq.skip | seq.ite | assign.loop | loop.assign =>
    exact absurd (agree_of_append_eq (List.append_cancel_left h)) (by decide)
  all_goals exact absurd (agree_of_append_eq h) (by decide)

theorem Program.source_delimited : Delimited Program.source := by
  intro ⟨s₁⟩ ⟨s₂⟩ r₁ r₂ h
  simp only [Program.source_eq, String.toList_append, List.append_assoc] at h
  obtain ⟨rfl, hr⟩ := Stmt.source_delimited (List.append_cancel_left h)
  exact ⟨rfl, List.append_cancel_left hr⟩

namespace Sha256

theorem hexByte_injective : Function.Injective hexByte := by
  have hdigit : ∀ m < 16, ∀ n < 16, Nat.digitChar m = Nat.digitChar n → m = n := by decide
  intro a b h
  simp only [hexByte, List.cons.injEq, and_true] at h
  have ha := a.toNat_lt
  have hb := b.toNat_lt
  have hhigh := hdigit _ (by omega) _ (by omega) h.1
  have hlow := hdigit _ (by omega) _ (by omega) h.2
  exact UInt8.toNat_inj.1 (by omega)

/-- Every byte takes two digits, so the digits of two lists pair off. -/
theorem flatMap_hexByte_injective : ∀ {bs cs : List UInt8}, bs.flatMap hexByte = cs.flatMap hexByte → bs = cs
  | [], [], _ => rfl
  | [], c :: cs, h => by simp [hexByte] at h
  | b :: bs, [], h => by simp [hexByte] at h
  | b :: bs, c :: cs, h => by
    rw [List.flatMap_cons, List.flatMap_cons] at h
    obtain ⟨hbyte, hrest⟩ := List.append_inj h rfl
    rw [hexByte_injective hbyte, flatMap_hexByte_injective hrest]

theorem hex_injective : Function.Injective hex := by
  intro bs cs h
  exact flatMap_hexByte_injective (String.ofList_injective h)

end Sha256

theorem Program.bytes_injective : Function.Injective Program.bytes := by
  intro p q h
  have hdata : p.source.toUTF8 = q.source.toUTF8 := ByteArray.ext (Array.toList_inj.1 h)
  exact Program.source_delimited.injective (String.toByteArray_inj.1 hdata)

/-- Only the digest itself could give two programs one fingerprint. -/
theorem source_identifies_program :
    Function.Injective Expr.source ∧ Function.Injective Stmt.source ∧ Function.Injective Program.source ∧
    Function.Injective Sha256.hex ∧
    ∀ p q : Program, p ≠ q → p.fingerprint = q.fingerprint →
      p.bytes ≠ q.bytes ∧ Sha256.digest p.bytes = Sha256.digest q.bytes := by
  refine ⟨Expr.source_delimited.injective, Stmt.source_delimited.injective, Program.source_delimited.injective,
    Sha256.hex_injective, ?_⟩
  intro p q hne h
  exact ⟨fun hbytes => hne (Program.bytes_injective hbytes), Sha256.hex_injective h⟩

end WhileLang
