import WhileLang.Stmt
import WhileLang.Text.Quoted

/-! The text of generated code. An expression becomes a closure from the store
to the text of its value, a statement a closure from the store before it to the
store after it. Each piece is written behind what is there already. -/

namespace WhileLang

namespace Code

def storeType : String := "BTreeMap<String, String>"

def exprSig : String := "|e: &BTreeMap<String, String>| -> String"

/-- Literals do not look at the store. -/
def literalSig : String := "|_: &BTreeMap<String, String>| -> String"

def stmtSig : String := "|e: BTreeMap<String, String>| -> BTreeMap<String, String>"

def stmtMutSig : String := "|mut e: BTreeMap<String, String>| -> BTreeMap<String, String>"

def overflowMessage : String := "arithmetic overflow"

end Code

open Code

/-- The text of the result, where `l` and `r` are the operands. -/
def Op.emitted : Op → String
  | .add => "l.checked_add(r).expect(" ++ Text.quoted overflowMessage ++ ").to_string()"
  | .mul => "l.checked_mul(r).expect(" ++ Text.quoted overflowMessage ++ ").to_string()"
  | .lt => "(l < r).to_string()"

def Expr.emit : Expr → String → String
  | lit v, out => out ++ literalSig ++ " \x7b String::from(" ++ Text.quoted v.text ++ ") \x7d"
  | var x, out => out ++ exprSig ++ " \x7b e[" ++ Text.quoted x ++ "].clone() \x7d"
  | binary op l r, out =>
    let out := l.emit (out ++ exprSig ++ " \x7b let l: i64 = (")
    let out := r.emit (out ++ ")(e).parse().unwrap(); let r: i64 = (")
    out ++ ")(e).parse().unwrap(); " ++ op.emitted ++ " \x7d"

def Stmt.emit : Stmt → String → String
  | skip, out => out ++ stmtSig ++ " \x7b e \x7d"
  | assign x e, out =>
    let out := e.emit (out ++ stmtMutSig ++ " \x7b let v = (")
    out ++ ")(&e); e.insert(String::from(" ++ Text.quoted x ++ "), v); e \x7d"
  | ite c t f, out =>
    let out := c.emit (out ++ stmtSig ++ " \x7b if (")
    let out := t.emit (out ++ ")(&e).parse::<bool>().unwrap() \x7b (")
    let out := f.emit (out ++ ")(e) \x7d else \x7b (")
    out ++ ")(e) \x7d \x7d"
  | seq a b, out =>
    -- the first statement is the argument of the second one's call
    let out := b.emit (out ++ stmtSig ++ " \x7b (")
    let out := a.emit (out ++ ")((")
    out ++ ")(e)) \x7d"
  | loop c body, out =>
    let out := c.emit (out ++ stmtMutSig ++ " \x7b while (")
    let out := body.emit (out ++ ")(&e).parse::<bool>().unwrap() \x7b e = (")
    out ++ ")(e); \x7d e \x7d"

def Expr.source (e : Expr) : String := e.emit ""

def Stmt.source (s : Stmt) : String := s.emit ""

end WhileLang
