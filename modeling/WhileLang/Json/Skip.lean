import WhileLang.Json.Number

/-! Values that nobody asked for are passed over. Only their form is checked:
a number may have any size, an escape may be half of a pair, and values may
nest as deeply as they like. -/

namespace WhileLang.Json

def skipEscape : Reader Unit := do
  match ← next with
  | none => throw (.ended .string)
  | some 'u' => do
    let _ ← hexEscape
  | some c => if (simpleEscape? c).isSome then pure () else throw .badEscape

def skipChars : Nat → Reader Unit
  | 0 => throw (.ended .string)
  | n + 1 => do
    match ← next with
    | none => throw (.ended .string)
    | some '"' => pure ()
    | some '\\' => do
      skipEscape
      skipChars n
    | some c => if c.toNat < 0x20 then throw .controlCharacter else skipChars n

/-- Passes over a string whose opening quote was looked at. -/
def skipString : Reader Unit := do
  advance
  skipChars (← remaining)

/-- The elements of a list after its bracket or a comma, each by `value`. -/
def skipElements (value : Reader Unit) : Nat → Reader Unit
  | 0 => throw (.ended .list)
  | n + 1 => do
    value
    match ← peek with
    | none => throw (.ended .list)
    | some ',' => do
      advance
      skipElements value n
    | some ']' => advance
    | some _ => throw .expectedListEnd

def skipList (value : Reader Unit) : Reader Unit := do
  advance
  match ← peek with
  | none => throw (.ended .list)
  | some ']' => advance
  | some _ => do skipElements value (← remaining)

/-- The members of an object after its brace or a comma. -/
def skipMembers (value : Reader Unit) : Nat → Reader Unit
  | 0 => throw (.ended .object)
  | n + 1 => do
    match ← peek with
    | none => throw (.ended .object)
    | some '"' => do
      skipString
      colon
      value
      match ← peek with
      | none => throw (.ended .object)
      | some ',' => do
        advance
        skipMembers value n
      | some '\x7d' => advance
      | some _ => throw .expectedObjectEnd
    | some _ => throw .keyNotString

def skipObject (value : Reader Unit) : Reader Unit := do
  advance
  match ← peek with
  | none => throw (.ended .object)
  | some '\x7d' => advance
  | some _ => do skipMembers value (← remaining)

def skipNumber : Reader Unit := do
  let _ ← literal .badNumber

/-- One value. It nests at most as deep as there is text left. -/
def skipNested : Nat → Reader Unit
  | 0 => throw (.ended .value)
  | n + 1 => do
    match ← peek with
    | none => throw (.ended .value)
    | some 'n' => do
      advance
      word ['u', 'l', 'l']
    | some 't' => do
      advance
      word ['r', 'u', 'e']
    | some 'f' => do
      advance
      word ['a', 'l', 's', 'e']
    | some '"' => skipString
    | some '[' => skipList (skipNested n)
    | some '\x7b' => skipObject (skipNested n)
    | some c => if c = '-' ∨ isDigit c then skipNumber else throw .expectedValue

def skipValue : Reader Unit := do skipNested (← remaining)

end WhileLang.Json
