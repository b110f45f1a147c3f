import WhileLang.Text.Quoted
import WhileLang.Text.Numeral

/-! Why a document is refused. Reading goes from left to right and stops at the
first problem, so there is one error; its wording is in `ReadError.detail`. -/

namespace WhileLang.Json

/-- A number as written in a document: an integer of 64 bits, or anything else. -/
inductive Numeral where
  | int (i : Int)
  | real (d : Text.Decimal)
  deriving DecidableEq

/-- What stands where something else was wanted. -/
inductive Found where
  | null
  | bool (b : Bool)
  | number (n : Numeral)
  | string (s : String)
  | list
  | object
  /-- A name without the content that belongs to it. -/
  | bareName
  deriving DecidableEq

/-- What the document ends in the middle of. -/
inductive Part where
  | value
  | string
  | list
  | object
  deriving DecidableEq

inductive ReadError where
  | ended (inside : Part)
  | expectedValue
  | expectedWord
  | expectedColon
  | expectedListEnd
  | expectedObjectEnd
  | keyNotString
  | trailingComma
  | trailingText
  | badNumber
  | numberTooLarge
  | badEscape
  | controlCharacter
  | loneSurrogate
  | brokenPair
  | tooDeep
  | mistyped (found : Found) (wanted : String)
  | outOfRange (i : Int) (wanted : String)
  | tooShort (length : Nat) (wanted : String) (size : Nat)
  | unknownName (name : String) (known : List String)
  | unknownField (name : String) (known : List String)
  | missingField (name : String)
  | duplicateField (name : String)
  deriving DecidableEq

/-- Whether a document stops too early, is no document of the format, or says something that
does not fit where it stands. -/
inductive Category where
  | truncated
  | malformed
  | unfit
  deriving DecidableEq

def Numeral.text : Numeral → String
  | int i => "integer `" ++ Text.ofInt i ++ "`"
  | real d => "floating point `" ++ d.text ++ "`"

namespace Found

def text : Found → String
  | null => "null"
  | bool true => "boolean `true`"
  | bool false => "boolean `false`"
  | number n => n.text
  | string s => "string " ++ Text.quoted s
  | list => "sequence"
  | object => "map"
  | bareName => "unit variant"

end Found

def Part.text : Part → String
  | value => "a value"
  | string => "a string"
  | list => "a list"
  | object => "an object"

def tick (name : String) : String := "`" ++ name ++ "`"

/-- The names that would have been accepted. -/
def oneOf : List String → String
  | [a] => tick a
  | [a, b] => tick a ++ " or " ++ tick b
  | names => "one of " ++ ", ".intercalate (names.map tick)

namespace ReadError

def detail : ReadError → String
  | ended p => "EOF while parsing " ++ p.text
  | expectedValue => "expected value"
  | expectedWord => "expected ident"
  | expectedColon => "expected " ++ tick ":"
  | expectedListEnd => "expected " ++ tick "," ++ " or " ++ tick "]"
  | expectedObjectEnd => "expected " ++ tick "," ++ " or " ++ tick "\x7d"
  | keyNotString => "key must be a string"
  | trailingComma => "trailing comma"
  | trailingText => "trailing characters"
  | badNumber => "invalid number"
  | numberTooLarge => "number out of range"
  | badEscape => "invalid escape"
  | controlCharacter => "control character (\\u0000-\\u001F) found while parsing a string"
  | loneSurrogate => "lone leading surrogate in hex escape"
  | brokenPair => "unexpected end of hex escape"
  | tooDeep => "recursion limit exceeded"
  | mistyped found wanted => "invalid type: " ++ found.text ++ ", expected " ++ wanted
  | outOfRange i wanted =>
    "invalid value: " ++ (Numeral.int i).text ++ ", expected " ++ wanted
  | tooShort length wanted size =>
    "invalid length " ++ Text.ofNat length ++ ", expected " ++ wanted ++ " with " ++
      Text.ofNat size ++ (if size = 1 then " element" else " elements")
  | unknownName name known =>
    "unknown variant " ++ tick name ++ ", expected " ++ oneOf known
  | unknownField name known =>
    "unknown field " ++ tick name ++ ", expected " ++ oneOf known
  | missingField name => "missing field " ++ tick name
  | duplicateField name => "duplicate field " ++ tick name

def message (e : ReadError) : String := "invalid document: " ++ e.detail

def category : ReadError → Category
  | ended _ => .truncated
  | mistyped .. => .unfit
  | outOfRange .. => .unfit
  | tooShort .. => .unfit
  | unknownName .. => .unfit
  | unknownField .. => .unfit
  | missingField _ => .unfit
  | duplicateField _ => .unfit
  | expectedValue => .malformed
  | expectedWord => .malformed
  | expectedColon => .malformed
  | expectedListEnd => .malformed
  | expectedObjectEnd => .malformed
  | keyNotString => .malformed
  | trailingComma => .malformed
  | trailingText => .malformed
  | badNumber => .malformed
  | numberTooLarge => .malformed
  | badEscape => .malformed
  | controlCharacter => .malformed
  | loneSurrogate => .malformed
  | brokenPair => .malformed
  | tooDeep => .malformed

end ReadError

end WhileLang.Json
