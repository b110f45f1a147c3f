import WhileLang.Json.Number
import WhileLang.Primitive

/-! Values without parts. Where something else stands it is read and named in
the error, unless it is broken itself. -/

namespace WhileLang.Json

def startsNumber (c : Char) : Bool := c == '-' || isDigit c

/-- Reports what stands here in place of the `wanted` thing. -/
def refuse {α : Type} (wanted : String) : Reader α := do
  match ← peek with
  | none => throw (.ended .value)
  | some 'n' => do
    advance
    word ['u', 'l', 'l']
    throw (.mistyped .null wanted)
  | some 't' => do
    advance
    word ['r', 'u', 'e']
    throw (.mistyped (.bool true) wanted)
  | some 'f' => do
    advance
    word ['a', 'l', 's', 'e']
    throw (.mistyped (.bool false) wanted)
  | some '"' => do throw (.mistyped (.string (← string)) wanted)
  | some '[' => throw (.mistyped .list wanted)
  | some '\x7b' => throw (.mistyped .object wanted)
  | some c =>
    if startsNumber c then do throw (.mistyped (.number (← numeral)) wanted)
    else throw .expectedValue

/-- An integer that `narrow` accepts. -/
def integer {α : Type} (wanted : String) (narrow : Int → Option α) : Reader α := do
  match ← peek with
  | none => refuse wanted
  | some c =>
    if startsNumber c then do
      match ← numeral with
      | .int i =>
        match narrow i with
        | some a => return a
        | none => throw (.outOfRange i wanted)
      | .real d => throw (.mistyped (.number (.real d)) wanted)
    else refuse wanted

def int64 : Reader Int64 := integer "i64" word?

def uint64 : Reader UInt64 := integer "u64" unsigned?

def null : Reader Unit := do
  match ← peek with
  | some 'n' => do
    advance
    word ['u', 'l', 'l']
  | _ => refuse "unit"

/-- Something, or `null` for nothing. -/
def optional {α : Type} (value : Reader α) : Reader (Option α) := do
  match ← peek with
  | some 'n' => do
    advance
    word ['u', 'l', 'l']
    return none
  | _ => return some (← value)

def boolean : Reader Bool := do
  match ← peek with
  | some 't' => do
    advance
    word ['r', 'u', 'e']
    return true
  | some 'f' => do
    advance
    word ['a', 'l', 's', 'e']
    return false
  | _ => refuse "a boolean"

def text : Reader String := do
  match ← peek with
  | some '"' => string
  | _ => refuse "a string"

end WhileLang.Json
