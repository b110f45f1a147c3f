import WhileLang.Code.Main
import WhileLang.Dict
import WhileLang.Primitive

/-! What a generated program does when it runs. As for statements, every call
spends one unit of fuel, and `none` says that the fuel ran out. -/

namespace WhileLang.Code

inductive Datum where
  | text (s : String)
  | number (n : Int64)
  | truth (b : Bool)
  | store (m : Dict String)
  | texts (l : List String)

/-- What a name in scope stands for. -/
abbrev Scope := Dict Datum

inductive Trap where
  /-- A text that does not read as wanted, a sum or product that overflows, a missing key. -/
  | aborted
  /-- A term that has no meaning where it stands. -/
  | stuck
  deriving DecidableEq

/-- The number that a run of digits stands for; there must be at least one. -/
def readDigits? (ds : List Char) : Option Nat :=
  if ds.isEmpty then none
  else if ds.all Char.isDigit then some (Nat.ofDigitChars 10 ds 0)
  else none

/-- Digits, with a sign in front if there is one, of a number that fits. -/
def readNumber? (s : String) : Option Int64 :=
  match s.toList with
  | '-' :: ds => (readDigits? ds).bind fun n => word? (-n)
  | '+' :: ds => (readDigits? ds).bind fun n => word? n
  | ds => (readDigits? ds).bind fun n => word? n

def readTruth? (s : String) : Option Bool :=
  if s = "true" then some true else if s = "false" then some false else none

def Binder.bind (b : Binder) (d : Datum) (σ : Scope) : Scope :=
  match b with
  | .ignored => σ
  | .named x => σ.insert x d
  | .mutable x => σ.insert x d

abbrev Run (α : Type) := ExceptT Trap Option α

/-- The answer where there is one, otherwise the program aborts. -/
def orAbort {α : Type} : Option α → Run α
  | some a => pure a
  | none => throw .aborted

def asText : Datum → Run String
  | .text s => pure s
  | _ => throw .stuck

def asNumber : Datum → Run Int64
  | .number n => pure n
  | _ => throw .stuck

def asTruth : Datum → Run Bool
  | .truth b => pure b
  | _ => throw .stuck

def asStore : Datum → Run (Dict String)
  | .store m => pure m
  | _ => throw .stuck

def asTexts : Datum → Run (List String)
  | .texts l => pure l
  | _ => throw .stuck

def inScope (σ : Scope) (x : String) : Run Datum :=
  match σ.get? x with
  | some d => pure d
  | none => throw .stuck

def displayed : Datum → Run String
  | .number n => pure (Text.ofInt n.toInt)
  | .truth true => pure "true"
  | .truth false => pure "false"
  | _ => throw .stuck

/-- A closure has a meaning only where it is applied. -/
def Term.eval : Nat → Scope → Term → Run Datum
  | 0, _, _ => none
  | _ + 1, σ, .var x => inScope σ x
  | _ + 1, _, .text s => pure (.text s)
  | fuel + 1, σ, .entry m key => do
    let d ← asStore (← Term.eval fuel σ m)
    return .text (← orAbort (d.get? key))
  | _ + 1, _, .closure .. => throw .stuck
  | fuel + 1, σ, .apply (.closure b _ _ body) a => do
    let d ← Term.eval fuel σ a
    Term.eval fuel (b.bind d σ) body
  | _ + 1, _, .apply _ _ => throw .stuck
  | fuel + 1, σ, .borrow a => Term.eval fuel σ a
  | fuel + 1, σ, .letNumber x a body => do
    let n ← orAbort (readNumber? (← asText (← Term.eval fuel σ a)))
    Term.eval fuel (σ.insert x (.number n)) body
  | fuel + 1, σ, .letIn x a body => do
    let d ← Term.eval fuel σ a
    Term.eval fuel (σ.insert x d) body
  | fuel + 1, σ, .truth a => do
    return .truth (← orAbort (readTruth? (← asText (← Term.eval fuel σ a))))
  | fuel + 1, σ, .sum a b => do
    let m ← asNumber (← Term.eval fuel σ a)
    let n ← asNumber (← Term.eval fuel σ b)
    return .number (← orAbort (word? (m.toInt + n.toInt)))
  | fuel + 1, σ, .product a b => do
    let m ← asNumber (← Term.eval fuel σ a)
    let n ← asNumber (← Term.eval fuel σ b)
    return .number (← orAbort (word? (m.toInt * n.toInt)))
  | fuel + 1, σ, .less a b => do
    let m ← asNumber (← Term.eval fuel σ a)
    let n ← asNumber (← Term.eval fuel σ b)
    return .truth (decide (m < n))
  | fuel + 1, σ, .display a => do return .text (← displayed (← Term.eval fuel σ a))
  | fuel + 1, σ, .insert x key a body => do
    let s ← asText (← Term.eval fuel σ a)
    let m ← asStore (← inScope σ x)
    Term.eval fuel (σ.insert x (.store (m.insert key s))) body
  | fuel + 1, σ, .choose c t f => do
    if ← asTruth (← Term.eval fuel σ c) then Term.eval fuel σ t else Term.eval fuel σ f
  | fuel + 1, σ, .repeatWhile c x a body => do
    if ← asTruth (← Term.eval fuel σ c) then
      let d ← Term.eval fuel σ a
      Term.eval fuel (σ.insert x d) (.repeatWhile c x a body)
    else Term.eval fuel σ body

/-- What the actions print. -/
def runActions (fuel : Nat) : Scope → List Action → Run String
  | _, [] => pure ""
  | σ, .newStore x :: rest => runActions fuel (σ.insert x (.store .empty)) rest
  | σ, .bind x a :: rest => do
    let d ← a.eval fuel σ
    runActions fuel (σ.insert x d) rest
  | σ, .listEntries y x :: rest => do
    let m ← asStore (← inScope σ x)
    runActions fuel (σ.insert y (.texts (m.entries.map fun p => p.1 ++ ": " ++ p.2))) rest
  | σ, .printList y :: rest => do
    let l ← asTexts (← inScope σ y)
    let printed ← runActions fuel σ rest
    return "\x7b" ++ ", ".intercalate l ++ "\x7d\n" ++ printed

def runMain (fuel : Nat) (actions : List Action) : Option (Except Trap String) :=
  (runActions fuel .empty actions).run

end WhileLang.Code
