import WhileLang.Text.Unprintable

/-! Quoted text: a string between double quotes in which a quote, a backslash
and every character that has no visible form of its own is escaped, so that the
quoted text is one line and ends at its last quote. -/

namespace WhileLang.Text

/-- A code point in braces, in lower-case hexadecimal without leading zeros. -/
def codePoint (c : Char) : List Char :=
  '\\' :: 'u' :: '\x7b' :: (Nat.toDigits 16 c.toNat ++ ['\x7d'])

def escapeQuoted (c : Char) : List Char :=
  match c with
  | '"' => ['\\', '"']
  | '\\' => ['\\', '\\']
  | '\n' => ['\\', 'n']
  | '\r' => ['\\', 'r']
  | '\t' => ['\\', 't']
  | '\x00' => ['\\', '0']
  | c => if isCombining c || isUnprintable c then codePoint c else [c]

def quoted (s : String) : String :=
  String.ofList ('"' :: (s.toList.flatMap escapeQuoted ++ ['"']))

end WhileLang.Text
