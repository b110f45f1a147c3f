import WhileLang.Expr

/-! Statements: skip, assignment, choice, sequence and loop. A statement is
finished exactly when it is `skip`. -/

namespace WhileLang

inductive Stmt where
  | skip
  | assign (x : Ident) (e : Expr)
  | ite (c : Expr) (t f : Stmt)
  | seq (a b : Stmt)
  | loop (c : Expr) (body : Stmt)
  deriving DecidableEq

/-- What a statement is at its root; documents call it by name. -/
inductive Form where
  | doNothing
  | assign
  | choice
  | sequence
  | loop
  deriving DecidableEq

namespace Form

def name : Form → String
  | doNothing => "DoNothing"
  | assign => "Assign"
  | choice => "If"
  | sequence => "Sequence"
  | loop => "While"

/-- Every form, in the order in which messages list them. -/
def all : List Form := [doNothing, assign, choice, sequence, loop]

end Form

namespace Stmt

def reducible : Stmt → Bool
  | skip => false
  | assign .. => true
  | ite .. => true
  | seq .. => true
  | loop .. => true

/-- Sequences print without brackets, so the text does not show how they nest. -/
def text : Stmt → String
  | skip => "do-nothing"
  | assign x e => x ++ " = " ++ e.text
  | ite c t f =>
    "if " ++ c.text ++ " \x7b" ++ t.text ++ "\x7d else \x7b" ++ f.text ++ "\x7d"
  | seq a b => a.text ++ "; " ++ b.text
  | loop c body => "while " ++ c.text ++ " \x7b" ++ body.text ++ "\x7d"

end Stmt

end WhileLang
