import WhileLang.Dict
import WhileLang.Fault

/-! Environments: what each variable stands for. A variable may be bound to any
expression; one that is no literal is evaluated when the variable is. -/

namespace WhileLang

abbrev Env := Dict Expr

namespace Env

def lookup (env : Env) (x : Ident) : Except Fault Expr :=
  match env.get? x with
  | some e => .ok e
  | none => .error (.unbound x)

/-- Bindings in the order of the names. -/
def text (env : Env) : String :=
  "\x7b" ++ ", ".intercalate (env.entries.map fun b => b.1 ++ ": " ++ b.2.text) ++ "\x7d"

end Env

end WhileLang
