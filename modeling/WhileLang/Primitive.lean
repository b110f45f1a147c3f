import WhileLang.Fault

/-! What an operator does once both operands are there, and when an expression
decides a condition. Operands are taken as they stand: one that is not a
literal is of the wrong kind, never evaluated first. -/

namespace WhileLang

/-- An exact integer as a 64-bit word, where it is one. -/
def word? (i : Int) : Option Int64 :=
  if -0x8000000000000000 ≤ i ∧ i < 0x8000000000000000 then some (Int64.ofInt i) else none

def unsigned? (i : Int) : Option UInt64 :=
  if 0 ≤ i ∧ i < 0x10000000000000000 then some (UInt64.ofNat i.toNat) else none

/-- Computes exactly and refuses a result that is no word, so nothing wraps. -/
def Op.checked (op : Op) (exact : Int → Int → Int) (l r : Expr) : Except Fault Value :=
  match l, r with
  | .lit (.num a), .lit (.num b) =>
    match word? (exact a.toInt b.toInt) with
    | some n => .ok (.num n)
    | none => .error (.overflow op a b)
  | l, r => .error (.operands op l.kind r.kind)

def lessThan (l r : Expr) : Except Fault Value :=
  match l, r with
  | .lit (.num a), .lit (.num b) => .ok (.bool (decide (a < b)))
  | .lit (.bool a), .lit (.bool b) => .error (.booleans a b)
  | l, r => .error (.incomparable l.kind r.kind)

def Op.apply : Op → Expr → Expr → Except Fault Value
  | .add => Op.checked .add (· + ·)
  | .mul => Op.checked .mul (· * ·)
  | .lt => lessThan

def Expr.truth : Expr → Except Fault Bool
  | .lit (.bool b) => .ok b
  | e => .error (.condition e)

end WhileLang
