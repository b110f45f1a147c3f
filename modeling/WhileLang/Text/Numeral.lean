/-! Numbers as text. Integers are in base ten. A binary64 number is its shortest
decimal: of all decimals that round to it, the nearest one among those with the
fewest digits. -/

namespace WhileLang.Text

def ofNat (n : Nat) : String := String.ofList (Nat.toDigits 10 n)

/-- No leading zeros, and a minus sign in front of a negative one. -/
def ofInt : Int → String
  | .ofNat n => ofNat n
  | .negSucc n => "-" ++ ofNat (n + 1)

/-- `digits * 10 ^ exponent`, with a sign that zero has too. -/
structure Decimal where
  negative : Bool
  digits : Nat
  exponent : Int
  deriving DecidableEq

/-- The numbers that round to `value`, all in units of `2 ^ scale`. -/
structure Rounding where
  value : Nat
  low : Nat
  high : Nat
  closed : Bool
  scale : Int

namespace Rounding

/-- The bit above the stored ones, which all but the smallest numbers have. -/
def implicitBit : Nat := 0x10000000000000

/-- A quarter of a unit in the last place is the unit here. Below a power of two the gap to the
next smaller number is half as wide; a tie goes to an even significand, so the ends of the
interval belong to it exactly then. -/
def ofBits (bits : UInt64) : Rounding :=
  let e : Nat := (bits.toNat / implicitBit) % 0x800
  let f : Nat := bits.toNat % implicitBit
  let m : Nat := if e = 0 then f else f + implicitBit
  let q : Int := if e = 0 then -1074 else (e : Int) - 1075
  let below := if f = 0 ∧ 1 < e then 1 else 2
  ⟨4 * m, 4 * m - below, 4 * m + 2, m % 2 == 0, q - 2⟩

/-- The factors that bring a point of the grid of step `10 ^ k` and a number of the interval to
one unit. -/
def factors (r : Rounding) (k : Int) : Nat × Nat :=
  (Nat.pow 10 k.toNat * Nat.pow 2 (-r.scale).toNat,
    Nat.pow 10 (-k).toNat * Nat.pow 2 r.scale.toNat)

/-- The multiple of `10 ^ k` that lies in the interval and is nearest to the value, if any. Only
the value's two neighbours can be. -/
def onGrid? (r : Rounding) (k : Int) : Option Nat :=
  let (g, v) := r.factors k
  let c := r.value * v / g
  let inside (d : Nat) : Bool :=
    if r.closed then decide (r.low * v ≤ d * g ∧ d * g ≤ r.high * v)
    else decide (r.low * v < d * g ∧ d * g < r.high * v)
  let before := r.value * v - c * g
  let after := (c + 1) * g - r.value * v
  match inside c, inside (c + 1) with
  | true, true => if before < after ∨ before = after ∧ c % 2 = 0 then some c else some (c + 1)
  | true, false => some c
  | false, true => some (c + 1)
  | false, false => none

/-- From the grid of step `10 ^ k` down to finer ones, the first with a point in the interval. -/
def coarsest (r : Rounding) : Nat → Int → Nat × Int
  | 0, k => (0, k)
  | n + 1, k =>
    match r.onGrid? k with
    | some d => (d, k)
    | none => r.coarsest n (k - 1)

end Rounding

/-- Every finite number lies below `10 ^ 309` and has a decimal in its interval at the latest on
the grid of step `10 ^ -324`. -/
def Decimal.ofFloat (x : Float) : Decimal :=
  let bits := x.toBits
  let r := Rounding.ofBits bits
  let (digits, exponent) := if r.value = 0 then (0, 0) else r.coarsest 634 309
  ⟨decide (0x8000000000000000 ≤ bits.toNat), digits, exponent⟩

/-- Positional from `10 ^ -5` up to below `10 ^ 16`, always with a point; otherwise one digit
before the point and a signed exponent. -/
def Decimal.text (d : Decimal) : String :=
  let ds := Nat.toDigits 10 d.digits
  let point : Int := ds.length + d.exponent
  let body : List Char :=
    if -5 < point ∧ point ≤ 16 then
      if point ≤ 0 then '0' :: '.' :: (List.replicate (-point).toNat '0' ++ ds)
      else
        let whole := ds.take point.toNat ++ List.replicate (point.toNat - ds.length) '0'
        let fraction := ds.drop point.toNat
        whole ++ '.' :: (if fraction.isEmpty then ['0'] else fraction)
    else
      let fraction := ds.drop 1
      let exponent := point - 1
      ds.take 1 ++ (if fraction.isEmpty then [] else '.' :: fraction) ++
        'e' :: (if exponent < 0 then '-' else '+') :: Nat.toDigits 10 exponent.natAbs
  (if d.negative then "-" else "") ++ String.ofList body

end WhileLang.Text
