import WhileLang.Expr

/-! Why a step or an evaluation fails. A fault keeps the cause; the wording is
in `Fault.message` alone. -/

namespace WhileLang

inductive Fault where
  /-- A literal has no step. -/
  | irreducible (v : Value)
  /-- A finished statement has no step. -/
  | finished
  /-- Arithmetic on something other than two numbers. -/
  | operands (op : Op) (l r : Kind)
  /-- Two booleans have no order. -/
  | booleans (a b : Bool)
  /-- A comparison of neither two numbers nor two booleans. -/
  | incomparable (l r : Kind)
  /-- A condition that is not a boolean. -/
  | condition (e : Expr)
  | unbound (x : Ident)
  /-- The exact result of `a op b` is no 64-bit number. -/
  | overflow (op : Op) (a b : Int64)
  deriving DecidableEq

namespace Fault

def message : Fault → String
  | irreducible v => "cannot reduce terminal " ++ v.kind.name ++ " " ++ v.text
  | finished => "cannot reduce terminal DoNothing"
  | operands op l r =>
    "type mismatch: cannot apply '" ++ op.symbol ++ "' to " ++ l.name ++ " and " ++ r.name
  | booleans a b =>
    "type mismatch: cannot compare Booleans " ++ (Value.bool a).text ++ " and " ++
      (Value.bool b).text
  | incomparable l r => "unknown type: cannot compare " ++ l.name ++ " and " ++ r.name
  | condition e =>
    "type mismatch: condition must be a Boolean, got " ++ e.kind.name ++ " " ++ e.text
  | unbound x => "unbound variable: " ++ x
  | overflow op a b =>
    "arithmetic overflow: " ++ Text.ofInt a.toInt ++ " " ++ op.symbol ++ " " ++ Text.ofInt b.toInt

end Fault

end WhileLang
