import WhileLang.Code.Term

/-! The main function of a generated program: a list of actions, one to a line. -/

namespace WhileLang.Code

inductive Action where
  /-- Names an empty store. -/
  | newStore (x : String)
  | bind (x : String) (a : Term)
  /-- Names the list of the store's entries, each as a text, in the order of the keys. -/
  | listEntries (y x : String)
  /-- Prints a list of texts between braces. -/
  | printList (y : String)
  deriving DecidableEq

def Action.render : Action → String
  | newStore x => "let " ++ x ++ ": BTreeMap<String, String> = BTreeMap::new();"
  | bind x a => "let " ++ x ++ " = " ++ a.render ++ ";"
  | listEntries y x =>
    "let " ++ y ++ ": Vec<String> = " ++ x ++
      ".iter().map(|(k, v)| format!(\"\x7bk\x7d: \x7bv\x7d\")).collect();"
  | printList y => "println!(\"\x7b\x7b\x7b\x7d\x7d\x7d\", " ++ y ++ ".join(\", \"));"

def renderActions : List Action → String
  | [] => ""
  | a :: rest => "    " ++ a.render ++ "\n" ++ renderActions rest

def renderMain (actions : List Action) : String :=
  "use std::collections::BTreeMap;\n\nfn main() \x7b\n" ++ renderActions actions ++ "\x7d\n"

end WhileLang.Code
