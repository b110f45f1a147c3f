import WhileLang.Code.Main
import WhileLang.Code.Program

/-! What generated text stands for: the term of an expression or a statement, and
the main function of a program. -/

namespace WhileLang

open Code

/-- A closure that looks something up in the store `e`. -/
def Code.reading (body : Term) : Term := .closure (.named "e") .storeRef .text body

def Op.term : Op → Term → Term → Term
  | .add => .sum
  | .mul => .product
  | .lt => .less

def Expr.term : Expr → Term
  | lit v => .closure .ignored .storeRef .text (.text v.text)
  | var x => reading (.entry (.var "e") x)
  | binary op l r =>
    reading (.letNumber "l" (.apply l.term (.var "e")) (.letNumber "r" (.apply r.term (.var "e"))
      (.display (op.term (.var "l") (.var "r")))))

/-- The condition of a choice or loop, read off the store `e`. -/
def Expr.conditionTerm (c : Expr) : Term := .truth (.apply c.term (.borrow (.var "e")))

namespace Stmt

/-- Assignments and loops change the store that they are given. -/
def binder : Stmt → Binder
  | assign .. => .mutable "e"
  | loop .. => .mutable "e"
  | _ => .named "e"

def closure (s : Stmt) (body : Term) : Term := .closure s.binder .store .store body

/-- What the closure of a statement does with the store `e`. -/
def bodyTerm : Stmt → Term
  | skip => .var "e"
  | assign x e => .letIn "v" (.apply e.term (.borrow (.var "e"))) (.insert "e" x (.var "v") (.var "e"))
  | ite c t f =>
    .choose c.conditionTerm (.apply (t.closure t.bodyTerm) (.var "e")) (.apply (f.closure f.bodyTerm) (.var "e"))
  | seq a b => .apply (b.closure b.bodyTerm) (.apply (a.closure a.bodyTerm) (.var "e"))
  | loop c body => .repeatWhile c.conditionTerm "e" (.apply (body.closure body.bodyTerm) (.var "e")) (.var "e")

def term (s : Stmt) : Term := s.closure s.bodyTerm

end Stmt

def Program.actions (p : Program) : List Action :=
  [.newStore "e", .bind "e" (.apply p.statement.term (.var "e")), .listEntries "bindings" "e",
    .printList "bindings"]

end WhileLang
