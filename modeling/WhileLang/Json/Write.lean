import WhileLang.Code.Program
import WhileLang.Env

/-! The compact documents of values: no blanks, fields in a fixed order, and in
strings only what must be escaped is. -/

namespace WhileLang

namespace Json

def escapeChar (c : Char) : List Char :=
  match c with
  | '"' => ['\\', '"']
  | '\\' => ['\\', '\\']
  | '\x08' => ['\\', 'b']
  | '\x0c' => ['\\', 'f']
  | '\n' => ['\\', 'n']
  | '\r' => ['\\', 'r']
  | '\t' => ['\\', 't']
  | c =>
    if c.toNat < 0x20 then
      ['\\', 'u', '0', '0', Nat.digitChar (c.toNat / 16), Nat.digitChar (c.toNat % 16)]
    else [c]

def quote (s : String) : String :=
  String.ofList ('"' :: (s.toList.flatMap escapeChar ++ ['"']))

def object (members : List (String × String)) : String :=
  "\x7b" ++ ",".intercalate (members.map fun m => quote m.1 ++ ":" ++ m.2) ++ "\x7d"

def list (elements : List String) : String := "[" ++ ",".intercalate elements ++ "]"

end Json

open Json

def Value.json (v : Value) : String := object [(v.kind.name, v.text)]

def Expr.json : Expr → String
  | lit v => v.json
  | binary op l r => object [(op.kind.name, list [l.json, r.json])]
  | var x => object [(Kind.ident.name, quote x)]

def Stmt.json : Stmt → String
  | skip => quote Form.doNothing.name
  | assign x e =>
    object [(Form.assign.name, object [("variable", quote x), ("expression", e.json)])]
  | ite c t f =>
    object [(Form.choice.name,
      object [("condition", c.json), ("consequence", t.json), ("alternative", f.json)])]
  | seq a b => object [(Form.sequence.name, object [("first", a.json), ("second", b.json)])]
  | loop c body => object [(Form.loop.name, object [("condition", c.json), ("body", body.json)])]

def Env.json (env : Env) : String := object (env.entries.map fun b => (b.1, b.2.json))

def Program.json (p : Program) : String := object [("statement", p.statement.json)]

end WhileLang
