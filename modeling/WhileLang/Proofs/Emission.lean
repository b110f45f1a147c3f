import WhileLang.Code.Tree

/-! Generated text, without the text that it is written behind, and the term that it
is the text of. What is there already stays as it is (`emit_append`), so the source of
a node is made of the sources of its parts. -/

namespace WhileLang

open Code

theorem Expr.emit_append (e : Expr) (before out : String) : e.emit (before ++ out) = before ++ e.emit out := by
  induction e generalizing out with
  | lit v => simp [emit, String.append_assoc]
  | var x => simp [emit, String.append_assoc]
  | binary op l r ihl ihr => simp [emit, String.append_assoc, ihl, ihr]

theorem Stmt.emit_append (s : Stmt) (before out : String) : s.emit (before ++ out) = before ++ s.emit out := by
  induction s generalizing out with
  | skip => simp [emit, String.append_assoc]
  | assign x e => simp [emit, String.append_assoc, Expr.emit_append]
  | ite c t f iht ihf => simp [emit, String.append_assoc, Expr.emit_append, iht, ihf]
  | seq a b iha ihb => simp [emit, String.append_assoc, iha, ihb]
  | loop c body ih => simp [emit, String.append_assoc, Expr.emit_append, ih]

theorem Expr.emit_eq (e : Expr) (out : String) : e.emit out = out ++ e.source := by
  rw [source, ← emit_append, String.append_empty]

theorem Stmt.emit_eq (s : Stmt) (out : String) : s.emit out = out ++ s.source := by
  rw [source, ← emit_append, String.append_empty]

/-! ### The source of a node -/

section
variable (x : Ident) (v : Value) (op : Op) (l r e c : Expr) (a b t f body : Stmt)

theorem Expr.source_lit :
    (lit v).source = literalSig ++ " \x7b String::from(" ++ Text.quoted v.text ++ ") \x7d" := by
  rw [source, emit, String.empty_append]

theorem Expr.source_var : (var x).source = exprSig ++ " \x7b e[" ++ Text.quoted x ++ "].clone() \x7d" := by
  rw [source, emit, String.empty_append]

theorem Expr.source_binary : (binary op l r).source =
    exprSig ++ " \x7b let l: i64 = (" ++ l.source ++ ")(e).parse().unwrap(); let r: i64 = (" ++ r.source ++
      ")(e).parse().unwrap(); " ++ op.emitted ++ " \x7d" := by
  rw [source, emit]
  simp only [Expr.emit_eq, String.empty_append]

theorem Stmt.source_skip : skip.source = stmtSig ++ " \x7b e \x7d" := by
  rw [source, emit, String.empty_append]

theorem Stmt.source_assign : (assign x e).source =
    stmtMutSig ++ " \x7b let v = (" ++ e.source ++ ")(&e); e.insert(String::from(" ++ Text.quoted x ++
      "), v); e \x7d" := by
  rw [source, emit]
  simp only [Expr.emit_eq, String.empty_append]

theorem Stmt.source_ite : (ite c t f).source =
    stmtSig ++ " \x7b if (" ++ c.source ++ ")(&e).parse::<bool>().unwrap() \x7b (" ++ t.source ++
      ")(e) \x7d else \x7b (" ++ f.source ++ ")(e) \x7d \x7d" := by
  rw [source, emit]
  simp only [Expr.emit_eq, Stmt.emit_eq, String.empty_append]

theorem Stmt.source_seq : (seq a b).source =
    stmtSig ++ " \x7b (" ++ b.source ++ ")((" ++ a.source ++ ")(e)) \x7d" := by
  rw [source, emit]
  simp only [Stmt.emit_eq, String.empty_append]

theorem Stmt.source_loop : (loop c body).source =
    stmtMutSig ++ " \x7b while (" ++ c.source ++ ")(&e).parse::<bool>().unwrap() \x7b e = (" ++ body.source ++
      ")(e); \x7d e \x7d" := by
  rw [source, emit]
  simp only [Expr.emit_eq, Stmt.emit_eq, String.empty_append]

end

/-- The main function is the same text around every statement. -/
theorem Program.source_eq (p : Program) : p.source = header ++ p.statement.source ++ footer := by
  rw [Program.source, Stmt.emit_eq]

/-! ### The term of a node -/

def Code.opening (b : Binder) (takes gives : Ty) : String :=
  "|" ++ b.render ++ ": " ++ takes.render ++ "| -> " ++ gives.render ++ " \x7b "

theorem Code.render_closure (b : Binder) (takes gives : Ty) (body : Term) :
    (Term.closure b takes gives body).render = opening b takes gives ++ body.render ++ " \x7d" := rfl

theorem Code.opening_literal : opening .ignored .storeRef .text = literalSig ++ " \x7b " := by decide

theorem Code.opening_expr : opening (.named "e") .storeRef .text = exprSig ++ " \x7b " := by decide

theorem Code.opening_stmt : opening (.named "e") .store .store = stmtSig ++ " \x7b " := by decide

theorem Code.opening_stmtMut : opening (.mutable "e") .store .store = stmtMutSig ++ " \x7b " := by decide

theorem Op.emitted_eq (op : Op) : op.emitted = (Term.display (op.term (.var "l") (.var "r"))).render := by
  cases op <;> decide

theorem Expr.source_eq_render (e : Expr) : e.source = e.term.render := by
  induction e with
  | lit v =>
    have hbody : (Term.text v.text).render = "String::from(" ++ Text.quoted v.text ++ ")" := rfl
    rw [source_lit, term, render_closure, opening_literal, hbody]
    simp [← String.toList_inj]
  | var x =>
    have hbody : (Term.entry (.var "e") x).render = "e" ++ "[" ++ Text.quoted x ++ "].clone()" := rfl
    rw [source_var, term, reading, render_closure, opening_expr, hbody]
    simp [← String.toList_inj]
  | binary op l r ihl ihr =>
    have hoperand : ∀ (y : String) (a body : Term), (Term.letNumber y (.apply a (.var "e")) body).render =
        "let " ++ y ++ ": i64 = " ++ ("(" ++ a.render ++ ")(" ++ "e" ++ ")") ++ ".parse().unwrap(); " ++ body.render :=
      fun _ _ _ => rfl
    rw [source_binary, term, reading, render_closure, opening_expr, hoperand, hoperand, ihl, ihr, Op.emitted_eq]
    simp [← String.toList_inj]

theorem Expr.render_conditionTerm (c : Expr) :
    c.conditionTerm.render = "(" ++ c.source ++ ")(&e).parse::<bool>().unwrap()" := by
  have hparts : c.conditionTerm.render =
      "(" ++ c.term.render ++ ")(" ++ ("&" ++ "e") ++ ")" ++ ".parse::<bool>().unwrap()" := rfl
  rw [hparts, source_eq_render]
  simp [← String.toList_inj]

theorem Stmt.source_eq_render (s : Stmt) : s.source = s.term.render := by
  induction s with
  | skip =>
    have hterm : skip.term.render = opening (.named "e") .store .store ++ "e" ++ " \x7d" := rfl
    rw [source_skip, hterm, opening_stmt]
    simp [← String.toList_inj]
  | assign x e =>
    have hterm : (assign x e).term.render = opening (.mutable "e") .store .store ++
        ("let " ++ "v" ++ " = " ++ ("(" ++ e.term.render ++ ")(" ++ ("&" ++ "e") ++ ")") ++ "; " ++
          ("e" ++ ".insert(String::from(" ++ Text.quoted x ++ "), " ++ "v" ++ "); " ++ "e")) ++ " \x7d" := rfl
    rw [source_assign, hterm, opening_stmtMut, Expr.source_eq_render]
    simp [← String.toList_inj]
  | ite c t f iht ihf =>
    have hterm : (ite c t f).term.render = opening (.named "e") .store .store ++
        ("if " ++ c.conditionTerm.render ++ " \x7b " ++ ("(" ++ t.term.render ++ ")(" ++ "e" ++ ")") ++
          " \x7d else \x7b " ++ ("(" ++ f.term.render ++ ")(" ++ "e" ++ ")") ++ " \x7d") ++ " \x7d" := rfl
    rw [source_ite, hterm, opening_stmt, Expr.render_conditionTerm, iht, ihf]
    simp [← String.toList_inj]
  | seq a b iha ihb =>
    have hterm : (seq a b).term.render = opening (.named "e") .store .store ++
        ("(" ++ b.term.render ++ ")(" ++ ("(" ++ a.term.render ++ ")(" ++ "e" ++ ")") ++ ")") ++ " \x7d" := rfl
    rw [source_seq, hterm, opening_stmt, iha, ihb]
    simp [← String.toList_inj]
  | loop c body ih =>
    have hterm : (loop c body).term.render = opening (.mutable "e") .store .store ++
        ("while " ++ c.conditionTerm.render ++ " \x7b " ++ "e" ++ " = " ++
          ("(" ++ body.term.render ++ ")(" ++ "e" ++ ")") ++ "; \x7d " ++ "e") ++ " \x7d" := rfl
    rw [source_loop, hterm, opening_stmtMut, Expr.render_conditionTerm, ih]
    simp [← String.toList_inj]

/-- The source of a program is the text of its actions. -/
theorem Program.source_eq_renderMain (p : Program) : p.source = renderMain p.actions := by
  have hmain : renderMain p.actions = "use std::collections::BTreeMap;\n\nfn main() \x7b\n" ++
      ("    " ++ (Action.newStore "e").render ++ "\n" ++
        ("    " ++ ("let " ++ "e" ++ " = " ++ ("(" ++ p.statement.term.render ++ ")(" ++ "e" ++ ")") ++ ";") ++ "\n" ++
          ("    " ++ (Action.listEntries "bindings" "e").render ++ "\n" ++
            ("    " ++ (Action.printList "bindings").render ++ "\n" ++ "")))) ++ "\x7d\n" := rfl
  have hheader : header = "use std::collections::BTreeMap;\n\nfn main() \x7b\n" ++ "    " ++
      (Action.newStore "e").render ++ "\n" ++ "    " ++ "let " ++ "e" ++ " = " ++ "(" := by decide
  have hfooter : footer = ")(" ++ "e" ++ ")" ++ ";" ++ "\n" ++ "    " ++ (Action.listEntries "bindings" "e").render ++
      "\n" ++ "    " ++ (Action.printList "bindings").render ++ "\n" ++ "" ++ "\x7d\n" := by decide
  rw [source_eq, hmain, hheader, hfooter, Stmt.source_eq_render]
  simp only [String.append_assoc]

end WhileLang
