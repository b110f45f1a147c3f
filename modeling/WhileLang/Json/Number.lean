import WhileLang.Json.Reader

/-! Numbers in documents. The digits are read first; an integer that fits in 64
bits is exact, and all else is a binary64 number, of which only the text in a
message and the largest magnitude can be seen. -/

namespace WhileLang.Json

def isDigit (c : Char) : Bool := decide ('0' ≤ c ∧ c ≤ '9')

def digitValue (c : Char) : Nat := c.toNat - '0'.toNat

/-- A number as written. Fraction and exponent are absent in an integer. -/
structure Literal where
  negative : Bool
  whole : List Char
  fraction : Option (List Char)
  exponent : Option Int

def natOfDigits (ds : List Char) : Nat := ds.foldl (fun n c => 10 * n + digitValue c) 0

/-- The digits that come next, as many as there are. -/
def digits : Reader (List Char) := fun s => .ok (s.takeWhile isDigit, s.dropWhile isDigit)

/-- At least one digit; `atEnd` is the error where the document ends instead. -/
def someDigits (atEnd : ReadError) : Reader (List Char) := do
  match (← get).head? with
  | none => throw atEnd
  | some c => if isDigit c then digits else throw .badNumber

/-- The part before the point: a zero alone, or digits that do not start with one. -/
def wholeDigits (atEnd : ReadError) : Reader (List Char) := do
  match ← someDigits atEnd with
  | ['0'] => return ['0']
  | '0' :: _ => throw .badNumber
  | ds => return ds

/-- Whether a minus sign stands here; it is taken. -/
def minus : Reader Bool := do
  match ← get with
  | '-' :: rest => do set rest; return true
  | _ => return false

/-- The sign of an exponent, which may also be a plus. -/
def exponentSign : Reader Bool := do
  match ← get with
  | '+' :: rest => do set rest; return false
  | _ => minus

def fractionPart (atEnd : ReadError) : Reader (Option (List Char)) := do
  match ← get with
  | '.' :: rest => do
    set rest
    return some (← someDigits atEnd)
  | _ => return none

def exponentPart (atEnd : ReadError) : Reader (Option Int) := do
  match ← get with
  | c :: rest =>
    if c = 'e' ∨ c = 'E' then do
      set rest
      let negative ← exponentSign
      let n := natOfDigits (← someDigits atEnd)
      return some (if negative then -n else n)
    else return none
  | [] => return none

/-- A number that starts with a digit or a minus sign. -/
def literal (atEnd : ReadError) : Reader Literal := do
  let negative ← minus
  let whole ← wholeDigits atEnd
  let fraction ← fractionPart atEnd
  let exponent ← exponentPart atEnd
  return ⟨negative, whole, fraction, exponent⟩

def maxNatural : Nat := 0xffffffffffffffff

/-- Digits go into the significand as long as it fits in 64 bits. The result has the significand,
how many digits went in, and the digits that did not. -/
def fill : Nat → List Char → Nat × Nat × List Char
  | n, [] => (n, 0, [])
  | n, c :: cs =>
    if 10 * n + digitValue c ≤ maxNatural then
      let (m, k, rest) := fill (10 * n + digitValue c) cs
      (m, k + 1, rest)
    else (n, 0, c :: cs)

/-- `x * 10 ^ e` with one rounding where the power is a binary64 number. A magnitude beyond all
finite numbers is refused, one that is too small is zero. -/
def scale (x : Float) (e : Int) : Except ReadError Float :=
  if -308 ≤ e ∧ e ≤ 308 then
    if 0 ≤ e then
      let y := x * Float.ofScientific 1 false e.toNat
      if y.isInf then .error .numberTooLarge else .ok y
    else .ok (x / Float.ofScientific 1 false e.natAbs)
  else if x == 0 then .ok x
  else if 0 ≤ e then .error .numberTooLarge
  else scale (x / Float.ofScientific 1 false 308) (e + 308)
termination_by e.natAbs
decreasing_by omega

/-- Whole digits that do not fit count as powers of ten, fraction digits that do not fit are
dropped. -/
def Literal.real (l : Literal) : Except ReadError Numeral :=
  let (n, _, excess) := fill 0 l.whole
  let (m, k, _) := fill n (l.fraction.getD [])
  match scale m.toUInt64.toFloat ((excess.length : Int) - k + l.exponent.getD 0) with
  | .ok x => .ok (.real (Text.Decimal.ofFloat (if l.negative then -x else x)))
  | .error e => .error e

/-- Minus zero is no integer. -/
def Literal.numeral (l : Literal) : Except ReadError Numeral :=
  let n := natOfDigits l.whole
  match l.fraction, l.exponent with
  | none, none =>
    if l.negative then
      if 1 ≤ n ∧ n ≤ 0x8000000000000000 then .ok (.int (-n)) else l.real
    else if n ≤ maxNatural then .ok (.int n) else l.real
  | _, _ => l.real

def numeral : Reader Numeral := do
  let l ← literal (.ended .value)
  match l.numeral with
  | .ok n => return n
  | .error e => throw e

end WhileLang.Json
