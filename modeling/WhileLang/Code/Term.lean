import WhileLang.Text.Quoted

/-! The language of generated programs, as far as the generator uses it: terms
over texts, numbers, truth values and stores of texts by name, with closures
that are applied where they stand. `Term.render` is their text. -/

namespace WhileLang.Code

/-- What a closure takes or gives back. -/
inductive Ty where
  | text
  | store
  /-- A store that is only looked at. -/
  | storeRef
  deriving DecidableEq

def Ty.render : Ty → String
  | text => "String"
  | store => "BTreeMap<String, String>"
  | storeRef => "&BTreeMap<String, String>"

/-- How a closure binds what it takes. -/
inductive Binder where
  | ignored
  | named (x : String)
  /-- By a name that the body may write to. -/
  | mutable (x : String)
  deriving DecidableEq

def Binder.render : Binder → String
  | ignored => "_"
  | named x => x
  | mutable x => "mut " ++ x

inductive Term where
  | var (x : String)
  /-- A text with these characters. -/
  | text (s : String)
  /-- A copy of the text that the store has under the key. -/
  | entry (store : Term) (key : String)
  | closure (binder : Binder) (takes gives : Ty) (body : Term)
  | apply (f a : Term)
  | borrow (a : Term)
  /-- Binds the number that a text reads as, or fails. -/
  | letNumber (x : String) (a body : Term)
  | letIn (x : String) (a body : Term)
  /-- The truth value that a text reads as, or failure. -/
  | truth (a : Term)
  /-- The sum, or failure where it overflows. -/
  | sum (a b : Term)
  /-- The product, or failure where it overflows. -/
  | product (a b : Term)
  | less (a b : Term)
  /-- The text of a number or truth value. -/
  | display (a : Term)
  /-- Writes to a store that has a name, then goes on. -/
  | insert (store : String) (key : String) (a body : Term)
  | choose (c t f : Term)
  /-- As long as the condition holds, gives a name a new value; then goes on. -/
  | repeatWhile (c : Term) (x : String) (a body : Term)
  deriving DecidableEq

namespace Term

def render : Term → String
  | var x => x
  | text s => "String::from(" ++ Text.quoted s ++ ")"
  | entry m key => m.render ++ "[" ++ Text.quoted key ++ "].clone()"
  | closure b takes gives body =>
    "|" ++ b.render ++ ": " ++ takes.render ++ "| -> " ++ gives.render ++
      " \x7b " ++ body.render ++ " \x7d"
  | apply f a => "(" ++ f.render ++ ")(" ++ a.render ++ ")"
  | borrow a => "&" ++ a.render
  | letNumber x a body =>
    "let " ++ x ++ ": i64 = " ++ a.render ++ ".parse().unwrap(); " ++ body.render
  | letIn x a body => "let " ++ x ++ " = " ++ a.render ++ "; " ++ body.render
  | truth a => a.render ++ ".parse::<bool>().unwrap()"
  | sum a b =>
    a.render ++ ".checked_add(" ++ b.render ++ ").expect(\"arithmetic overflow\")"
  | product a b =>
    a.render ++ ".checked_mul(" ++ b.render ++ ").expect(\"arithmetic overflow\")"
  | less a b => "(" ++ a.render ++ " < " ++ b.render ++ ")"
  | display a => a.render ++ ".to_string()"
  | insert m key a body =>
    m ++ ".insert(String::from(" ++ Text.quoted key ++ "), " ++ a.render ++ "); " ++ body.render
  | choose c t f =>
    "if " ++ c.render ++ " \x7b " ++ t.render ++ " \x7d else \x7b " ++ f.render ++ " \x7d"
  | repeatWhile c x a body =>
    "while " ++ c.render ++ " \x7b " ++ x ++ " = " ++ a.render ++ "; \x7d " ++ body.render

end Term

end WhileLang.Code
