import WhileLang.Json.Scalar
import WhileLang.Json.Skip

/-! Values with parts: tagged values, pairs and records. A record stands as an
object with its fields in any order, or as a list of them in their own order.

What is inside a bracket comes as an `Option`: there is none at the last level
that a document may nest to, and then the bracket itself is refused. -/

namespace WhileLang.Json

/-- A name out of a fixed list. -/
def tag {τ : Type} (all : List τ) (name : τ → String) : Reader τ := do
  let s ← string
  match all.find? fun t => name t == s with
  | some t => return t
  | none => throw (.unknownName s (all.map name))

/-- A value written as its name alone, or as an object with its name as the one key. -/
def tagged {τ α : Type} (all : List τ) (name : τ → String) (bare : τ → Reader α)
    (content : Option (τ → Reader α)) : Reader α := do
  match ← peek with
  | none => throw (.ended .value)
  | some '"' => do bare (← tag all name)
  | some '\x7b' =>
    match content with
    | none => throw .tooDeep
    | some read => do
      advance
      match ← peek with
      | none => throw (.ended .object)
      | some '"' => do
        let t ← tag all name
        colon
        let a ← read t
        match ← peek with
        | none => throw (.ended .object)
        | some '\x7d' => do
          advance
          return a
        | some _ => throw .expectedValue
      | some '\x7d' => throw .expectedValue
      | some _ => throw .keyNotString
  | some _ => throw .expectedValue

/-- A list of exactly two. -/
def pair {α : Type} (wanted : String) (item : Option (Reader α)) : Reader (α × α) := do
  match ← peek with
  | some '[' =>
    match item with
    | none => throw .tooDeep
    | some read => do
      advance
      if ← nextElement true then
        let a ← read
        if ← nextElement false then
          let b ← read
          closeList
          return (a, b)
        else throw (.tooShort 1 wanted 2)
      else throw (.tooShort 0 wanted 2)
  | _ => refuse wanted

/-- A field of a record whose parts are collected in a draft of type `δ`. -/
structure Field (δ : Type) where
  name : String
  /-- An optional field that is absent keeps what the draft starts with. -/
  optional : Bool
  filled : δ → Bool
  read : δ → Reader δ

structure Layout (δ α : Type) where
  fields : List (Field δ)
  /-- Whether a field of another name is passed over; otherwise it is refused. -/
  lenient : Bool
  blank : δ
  build : δ → Except ReadError α

/-- The value of a field that has to be there. -/
def need {α : Type} (name : String) : Option α → Except ReadError α
  | some a => .ok a
  | none => .error (.missingField name)

namespace Layout

variable {δ α : Type}

def field? (l : Layout δ α) (name : String) : Option (Field δ) :=
  l.fields.find? fun f => f.name == name

/-- The members up to the closing brace, which is taken. -/
def members (l : Layout δ α) : Nat → Bool → δ → Reader δ
  | 0, _, _ => throw (.ended .object)
  | n + 1, first, d => do
    if ← nextKey first then
      let key ← string
      match l.field? key with
      | some f =>
        if f.filled d then throw (.duplicateField key)
        else do
          colon
          let d ← f.read d
          l.members n false d
      | none =>
        if l.lenient then do
          colon
          skipValue
          l.members n false d
        else throw (.unknownField key (l.fields.map Field.name))
    else
      advance
      return d

/-- The fields from the one at place `i` on, as elements of a list. -/
def elements (l : Layout δ α) (wanted : String) : List (Field δ) → Nat → δ → Reader δ
  | [], _, d => return d
  | f :: fs, i, d => do
    if ← nextElement (i == 0) then
      let d ← f.read d
      l.elements wanted fs (i + 1) d
    else if f.optional then l.elements wanted fs (i + 1) d
    else throw (.tooShort i wanted l.fields.length)

def finished (l : Layout δ α) (d : δ) : Reader α :=
  match l.build d with
  | .ok a => return a
  | .error e => throw e

end Layout

def record {δ α : Type} (wanted : String) (layout : Option (Layout δ α)) : Reader α := do
  match ← peek with
  | some '\x7b' =>
    match layout with
    | none => throw .tooDeep
    | some l => do
      advance
      let d ← l.members (← remaining) true l.blank
      l.finished d
  | some '[' =>
    match layout with
    | none => throw .tooDeep
    | some l => do
      advance
      let d ← l.elements wanted l.fields 0 l.blank
      let a ← l.finished d
      closeList
      return a
  | _ => refuse wanted

end WhileLang.Json
