import WhileLang.Json.Expression
import WhileLang.Stmt

/-! The reading of statements. The parts of a record are collected in a draft,
which becomes a statement once the record is closed. -/

namespace WhileLang.Json

structure AssignDraft where
  target : Option Ident
  value : Option Expr

def assignLayout (expr : Reader Expr) : Layout AssignDraft Stmt where
  fields := [
    ⟨"variable", false, fun d => d.target.isSome, fun d => do return ⟨← text, d.value⟩⟩,
    ⟨"expression", false, fun d => d.value.isSome, fun d => do return ⟨d.target, ← expr⟩⟩]
  lenient := true
  blank := ⟨none, none⟩
  build d := do return .assign (← need "variable" d.target) (← need "expression" d.value)

structure ChoiceDraft where
  condition : Option Expr
  consequence : Option Stmt
  alternative : Option Stmt

def choiceLayout (expr : Reader Expr) (stmt : Reader Stmt) : Layout ChoiceDraft Stmt where
  fields := [
    ⟨"condition", false, fun d => d.condition.isSome,
      fun d => do return ⟨← expr, d.consequence, d.alternative⟩⟩,
    ⟨"consequence", false, fun d => d.consequence.isSome,
      fun d => do return ⟨d.condition, ← stmt, d.alternative⟩⟩,
    ⟨"alternative", false, fun d => d.alternative.isSome,
      fun d => do return ⟨d.condition, d.consequence, ← stmt⟩⟩]
  lenient := true
  blank := ⟨none, none, none⟩
  build d := do
    return .ite (← need "condition" d.condition) (← need "consequence" d.consequence)
      (← need "alternative" d.alternative)

structure SequenceDraft where
  first : Option Stmt
  second : Option Stmt

def sequenceLayout (stmt : Reader Stmt) : Layout SequenceDraft Stmt where
  fields := [
    ⟨"first", false, fun d => d.first.isSome, fun d => do return ⟨← stmt, d.second⟩⟩,
    ⟨"second", false, fun d => d.second.isSome, fun d => do return ⟨d.first, ← stmt⟩⟩]
  lenient := true
  blank := ⟨none, none⟩
  build d := do return .seq (← need "first" d.first) (← need "second" d.second)

structure LoopDraft where
  condition : Option Expr
  body : Option Stmt

def loopLayout (expr : Reader Expr) (stmt : Reader Stmt) : Layout LoopDraft Stmt where
  fields := [
    ⟨"condition", false, fun d => d.condition.isSome, fun d => do return ⟨← expr, d.body⟩⟩,
    ⟨"body", false, fun d => d.body.isSome, fun d => do return ⟨d.condition, ← stmt⟩⟩]
  lenient := true
  blank := ⟨none, none⟩
  build d := do return .loop (← need "condition" d.condition) (← need "body" d.body)

def stmtBare : Form → Reader Stmt
  | .doNothing => return .skip
  | .assign => throw (.mistyped .bareName "struct variant")
  | .choice => throw (.mistyped .bareName "struct variant")
  | .sequence => throw (.mistyped .bareName "struct variant")
  | .loop => throw (.mistyped .bareName "struct variant")

/-- The readers of the parts of a statement. -/
structure Parts where
  expr : Reader Expr
  stmt : Reader Stmt

def formName (f : Form) : String := "struct variant Statement::" ++ f.name

def stmtContent (parts : Option Parts) : Form → Reader Stmt
  | .doNothing => do
    null
    return .skip
  | .assign => record (formName .assign) (parts.map fun p => assignLayout p.expr)
  | .choice => record (formName .choice) (parts.map fun p => choiceLayout p.expr p.stmt)
  | .sequence => record (formName .sequence) (parts.map fun p => sequenceLayout p.stmt)
  | .loop => record (formName .loop) (parts.map fun p => loopLayout p.expr p.stmt)

def stmtLevel (content : Option (Form → Reader Stmt)) : Reader Stmt :=
  tagged Form.all Form.name stmtBare content

def statement : Nat → Reader Stmt
  | 0 => stmtLevel none
  | 1 => stmtLevel (some (stmtContent none))
  | n + 2 => stmtLevel (some (stmtContent (some ⟨expression n, statement n⟩)))

end WhileLang.Json
