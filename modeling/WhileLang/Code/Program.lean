import WhileLang.Code.Emit
import WhileLang.Digest.Sha256

/-! Whole programs. The generated program runs its statement from an empty
store and prints the store that is left. -/

namespace WhileLang

structure Program where
  statement : Stmt
  deriving DecidableEq

namespace Program

/-- All that comes before the statement. -/
def header : String :=
  "use std::collections::BTreeMap;\n\n" ++ "fn main() \x7b\n" ++
    "    let e: " ++ Code.storeType ++ " = BTreeMap::new();\n" ++ "    let e = ("

/-- Its end applies the statement to the empty store, and prints the entries of what comes back. -/
def footer : String :=
  ")(e);\n" ++
    "    let bindings: Vec<String> = e.iter().map(|(k, v)| format!(\"\x7bk\x7d: \x7bv\x7d\")).collect();\n" ++
    "    println!(\"\x7b\x7b\x7b\x7d\x7d\x7d\", bindings.join(\", \"));" ++ "\n\x7d\n"

def source (p : Program) : String := p.statement.emit header ++ footer

def bytes (p : Program) : List UInt8 := p.source.toUTF8.data.toList

/-- The digest of the source in hexadecimal. -/
def fingerprint (p : Program) : String := Sha256.hex (Sha256.digest p.bytes)

end Program

end WhileLang
