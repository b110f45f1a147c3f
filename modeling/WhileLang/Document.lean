import WhileLang.Json.Statement
import WhileLang.Json.Write
import WhileLang.Machine

/-! Documents: environments, programs and configurations, and the reading of a
whole text as one value. -/

namespace WhileLang

namespace Json

/-- How many brackets may be open at once. -/
def maxLevels : Nat := 127

/-- The bindings up to the closing brace, which is taken; a later one of the same name wins. -/
def bindings (expr : Reader Expr) : Nat → Bool → Env → Reader Env
  | 0, _, _ => throw (.ended .object)
  | n + 1, first, env => do
    if ← nextKey first then
      let x ← string
      colon
      let e ← expr
      bindings expr n false (env.insert x e)
    else
      advance
      return env

def environmentLevel (expr : Option (Reader Expr)) : Reader Env := do
  match ← peek with
  | some '\x7b' =>
    match expr with
    | none => throw .tooDeep
    | some read => do
      advance
      bindings read (← remaining) true .empty
  | _ => refuse "a map"

def environment : Nat → Reader Env
  | 0 => environmentLevel none
  | n + 1 => environmentLevel (some (expression n))

def programLayout (stmt : Reader Stmt) : Layout (Option Stmt) Program where
  fields := [⟨"statement", false, Option.isSome, fun _ => do return some (← stmt)⟩]
  lenient := true
  blank := none
  build d := do return ⟨← need "statement" d⟩

def program : Nat → Reader Program
  | 0 => record "struct Program" (none : Option (Layout (Option Stmt) Program))
  | n + 1 => record "struct Program" (some (programLayout (statement n)))

/-- The draft has no limit until the field is read, and then what it says, which may be none. -/
def configLayout : Layout (Option (Option UInt64)) Config where
  fields := [⟨"step_limit", true, Option.isSome, fun _ => do return some (← optional uint64)⟩]
  lenient := false
  blank := none
  build d := .ok ⟨d.join⟩

def config : Reader Config := record "struct MachineConfig" (some configLayout)

/-- Reads a whole document. -/
def load {α : Type} (value : Reader α) (document : String) : Except ReadError α :=
  ((do let a ← value; finish; return a : Reader α).run document.toList).map Prod.fst

end Json

open Json

def Expr.load (document : String) : Except ReadError Expr :=
  Json.load (expression maxLevels) document

def Stmt.load (document : String) : Except ReadError Stmt :=
  Json.load (statement maxLevels) document

def Env.load (document : String) : Except ReadError Env :=
  Json.load (environment maxLevels) document

def Program.load (document : String) : Except ReadError Program :=
  Json.load (program maxLevels) document

def Config.load (document : String) : Except ReadError Config := Json.load config document

/-- A name is a document of its own: a string. -/
def loadIdent (document : String) : Except ReadError Ident := Json.load text document

end WhileLang
