import WhileLang.Expr
import WhileLang.Json.Record

/-! The reading of expressions. The readers here and for statements take the
number of brackets that may still be opened, and call themselves with two fewer
where a tagged value holds another one. -/

namespace WhileLang.Json

def exprBare (k : Kind) : Reader Expr :=
  throw (.mistyped .bareName (match k with
    | .number => "newtype variant"
    | .boolean => "newtype variant"
    | .ident => "newtype variant"
    | .add => "tuple variant"
    | .multiply => "tuple variant"
    | .lessThan => "tuple variant"))

def operation (op : Op) (item : Option (Reader Expr)) : Reader Expr := do
  let (l, r) ← pair ("tuple variant Expression::" ++ op.kind.name) item
  return .binary op l r

def exprContent (item : Option (Reader Expr)) : Kind → Reader Expr
  | .number => do return .lit (.num (← int64))
  | .boolean => do return .lit (.bool (← boolean))
  | .ident => do return .var (← text)
  | .add => operation .add item
  | .multiply => operation .mul item
  | .lessThan => operation .lt item

def exprLevel (content : Option (Kind → Reader Expr)) : Reader Expr :=
  tagged Kind.all Kind.name exprBare content

def expression : Nat → Reader Expr
  | 0 => exprLevel none
  | 1 => exprLevel (some (exprContent none))
  | n + 2 => exprLevel (some (exprContent (some (expression n))))

end WhileLang.Json
