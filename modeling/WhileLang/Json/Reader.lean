import WhileLang.Json.ReadError

/-! The reading of tokens: blanks, punctuation, words and strings, one
character after the other off the front of the text. A loop here takes the
length of what is left as its fuel: each round takes a character, so without
fuel there is no text either, and the answer is that the document ended. -/

namespace WhileLang.Json

abbrev Reader (α : Type) := StateT (List Char) (Except ReadError) α

def isBlank (c : Char) : Bool := c == ' ' || c == '\n' || c == '\t' || c == '\r'

/-- Passes over blanks; the character after them stays. -/
def peek : Reader (Option Char) := fun s =>
  let s := s.dropWhile isBlank
  .ok (s.head?, s)

/-- Takes the next character, blank or not. -/
def next : Reader (Option Char) := fun s => .ok (s.head?, s.tail)

/-- Takes the character that was looked at. -/
def advance : Reader Unit := fun s => .ok ((), s.tail)

/-- How much text is left. -/
def remaining : Reader Nat := fun s => .ok (s.length, s)

/-- The rest of a word after its first letter. -/
def word : List Char → Reader Unit
  | [] => pure ()
  | c :: cs => do
    match ← next with
    | none => throw (.ended .value)
    | some d => if d = c then word cs else throw .expectedWord

def colon : Reader Unit := do
  match ← peek with
  | none => throw (.ended .object)
  | some ':' => advance
  | some _ => throw .expectedColon

def hexDigit? (c : Char) : Option Nat :=
  if '0' ≤ c ∧ c ≤ '9' then some (c.toNat - '0'.toNat)
  else if 'a' ≤ c ∧ c ≤ 'f' then some (c.toNat - 'a'.toNat + 10)
  else if 'A' ≤ c ∧ c ≤ 'F' then some (c.toNat - 'A'.toNat + 10)
  else none

def hexDigits? : List Char → Nat → Option Nat
  | [], n => some n
  | c :: cs, n =>
    match hexDigit? c with
    | some d => hexDigits? cs (16 * n + d)
    | none => none

def byteLength (s : List Char) : Nat := s.foldl (fun n c => n + c.utf8Size) 0

/-- The four digits of a numeric escape. Where fewer than four bytes are left the document
ended, whatever they are. -/
def hexEscape : Reader Nat := do
  match ← get with
  | a :: b :: c :: d :: rest =>
    match hexDigits? [a, b, c, d] 0 with
    | some n => do set rest; return n
    | none => throw .badEscape
  | short =>
    if byteLength short < 4 then throw (.ended .string) else throw .badEscape

def isLeading (n : Nat) : Bool := decide (0xD800 ≤ n ∧ n ≤ 0xDBFF)

def isTrailing (n : Nat) : Bool := decide (0xDC00 ≤ n ∧ n ≤ 0xDFFF)

/-- The character that two surrogates stand for. -/
def surrogatePair (hi lo : Nat) : Char :=
  Char.ofNat ((hi - 0xD800) * 0x400 + (lo - 0xDC00) + 0x10000)

/-- One character between the two halves of a surrogate pair. -/
def pairMark (c : Char) : Reader Unit := do
  match ← next with
  | none => throw (.ended .string)
  | some d => if d = c then pure () else throw .brokenPair

/-- A numeric escape: one code unit, or two that form a surrogate pair. -/
def unicodeEscape : Reader Char := do
  let n ← hexEscape
  if isTrailing n then throw .loneSurrogate
  else if isLeading n then do
    pairMark '\\'
    pairMark 'u'
    let k ← hexEscape
    if isTrailing k then return surrogatePair n k else throw .loneSurrogate
  else return Char.ofNat n

def simpleEscape? : Char → Option Char
  | '"' => some '"'
  | '\\' => some '\\'
  | '/' => some '/'
  | 'b' => some '\x08'
  | 'f' => some '\x0c'
  | 'n' => some '\n'
  | 'r' => some '\r'
  | 't' => some '\t'
  | _ => none

/-- What follows a backslash. -/
def escape : Reader Char := do
  match ← next with
  | none => throw (.ended .string)
  | some 'u' => unicodeEscape
  | some c =>
    match simpleEscape? c with
    | some d => return d
    | none => throw .badEscape

/-- The characters up to the closing quote. -/
def stringChars : Nat → Reader (List Char)
  | 0 => throw (.ended .string)
  | n + 1 => do
    match ← next with
    | none => throw (.ended .string)
    | some '"' => return []
    | some '\\' => do
      let c ← escape
      return c :: (← stringChars n)
    | some c =>
      if c.toNat < 0x20 then throw .controlCharacter else return c :: (← stringChars n)

/-- A string whose opening quote was looked at. -/
def string : Reader String := do
  advance
  return String.ofList (← stringChars (← remaining))

/-- Whether another key stands before the end of an object. The key, or the closing brace, is
not taken. -/
def nextKey (first : Bool) : Reader Bool := do
  match ← peek with
  | none => throw (.ended .object)
  | some '\x7d' => return false
  | some c =>
    if first then
      if c = '"' then return true else throw .keyNotString
    else if c = ',' then do
      advance
      match ← peek with
      | none => throw (.ended .value)
      | some '"' => return true
      | some '\x7d' => throw .trailingComma
      | some _ => throw .keyNotString
    else throw .expectedObjectEnd

/-- Whether another element stands before the end of a list. -/
def nextElement (first : Bool) : Reader Bool := do
  match ← peek with
  | none => throw (.ended .list)
  | some ']' => return false
  | some c =>
    if first then return true
    else if c = ',' then do
      advance
      match ← peek with
      | none => throw (.ended .value)
      | some ']' => throw .trailingComma
      | some _ => return true
    else throw .expectedListEnd

/-- The end of a list that has all its elements. -/
def closeList : Reader Unit := do
  match ← peek with
  | none => throw (.ended .list)
  | some ']' => advance
  | some ',' => do
    advance
    match ← peek with
    | some ']' => throw .trailingComma
    | _ => throw .trailingText
  | some _ => throw .trailingText

/-- The end of the document: blanks only. -/
def finish : Reader Unit := do
  match ← peek with
  | none => pure ()
  | some _ => throw .trailingText

end WhileLang.Json
