import WhileLang.Text.Numeral

/-! Expressions: literals, variables and three binary operators over 64-bit
numbers and booleans. An expression is finished exactly when it is a literal. -/

namespace WhileLang

abbrev Ident := String

inductive Value where
  | num (n : Int64)
  | bool (b : Bool)
  deriving DecidableEq

inductive Op where
  | add
  | mul
  | lt
  deriving DecidableEq

inductive Expr where
  | lit (v : Value)
  | binary (op : Op) (l r : Expr)
  | var (x : Ident)
  deriving DecidableEq

/-- What an expression is at its root; messages and documents call it by name. -/
inductive Kind where
  | number
  | boolean
  | add
  | multiply
  | lessThan
  | ident
  deriving DecidableEq

namespace Kind

def name : Kind → String
  | number => "Number"
  | boolean => "Boolean"
  | add => "Add"
  | multiply => "Multiply"
  | lessThan => "LessThan"
  | ident => "Variable"

/-- Every kind, in the order in which messages list them. -/
def all : List Kind := [number, boolean, add, multiply, lessThan, ident]

end Kind

namespace Value

def kind : Value → Kind
  | num _ => .number
  | bool _ => .boolean

def text : Value → String
  | num n => Text.ofInt n.toInt
  | bool true => "true"
  | bool false => "false"

end Value

namespace Op

def kind : Op → Kind
  | add => .add
  | mul => .multiply
  | lt => .lessThan

def symbol : Op → String
  | add => "+"
  | mul => "*"
  | lt => "<"

end Op

namespace Expr

def kind : Expr → Kind
  | lit v => v.kind
  | binary op _ _ => op.kind
  | var _ => .ident

def reducible : Expr → Bool
  | lit _ => false
  | binary .. => true
  | var _ => true

/-- The printed form has no brackets, so it does not show how operators nest. -/
def text : Expr → String
  | lit v => v.text
  | binary op l r => l.text ++ " " ++ op.symbol ++ " " ++ r.text
  | var x => x

end Expr

end WhileLang
