import FirstPaint.Json.Token

/-!
# Values of JSON

The data that a JSON text stands for, and a reader for it. Arrays and objects
may be nested at most 127 deep. A value counts as empty when it carries no
information in the loose sense: null, false, zero, the texts without characters
and of a single zero, and an array or object without members.
-/

set_option autoImplicit false

namespace FirstPaint

/-- The data of a JSON text. -/
inductive Json where
  /-- No value. -/
  | null
  /-- A truth value. -/
  | bool (value : Bool)
  /-- A number. -/
  | number (value : Json.Number)
  /-- A text. -/
  | text (value : String)
  /-- Values in order. -/
  | array (members : List Json)
  /-- Values with names. -/
  | object (members : List (String × Json))
deriving Repr

namespace Json

/-- Whether a number is zero. -/
def Number.isZero : Number → Bool
  | .whole value => value == 0
  | .negative value => value == 0
  | .real magnitude => magnitude.isZero

/-- Whether a value carries no information. -/
def isEmpty : Json → Bool
  | .null => true
  | .bool value => !value
  | .number value => value.isZero
  | .text value => value == "" || value == "0"
  | .array members => members.isEmpty
  | .object members => members.isEmpty

/-! ## Reading -/

/-- Reads members with commas between them up to a closing bracket. The first
argument bounds the number of members; each takes at least one character. -/
def readMembers {α : Type} (closing : Char) (member : JsonReader α) :
    Nat → JsonReader (List α)
  | 0 => fun _ => .error .truncated
  | bound + 1 => fun text => do
    let (first, rest) ← member text
    match skipBlanks rest with
    | [] => .error .truncated
    | next :: rest =>
      if next = closing then return ([first], rest)
      else if next = ',' then do
        let (others, rest) ← readMembers closing member bound (skipBlanks rest)
        return (first :: others, rest)
      else .error .malformed

/-- Reads members up to a closing bracket, where there may be none. -/
def readOptionalMembers {α : Type} (closing : Char) (member : JsonReader α) :
    JsonReader (List α) := fun text =>
  match skipBlanks text with
  | [] => .error .truncated
  | first :: rest =>
    if first = closing then .ok ([], rest)
    else readMembers closing member (first :: rest).length (first :: rest)

/-- Reads a name, a colon and a value. -/
def readNamed {α : Type} (value : JsonReader α) : JsonReader (String × α) := fun text =>
  match text with
  | [] => .error .truncated
  | '"' :: rest => do
    let (name, rest) ← readString rest
    match skipBlanks rest with
    | [] => .error .truncated
    | ':' :: rest =>
      let (read, rest) ← value rest
      return ((name, read), rest)
    | _ => .error .malformed
  | _ => .error .malformed

/-- Reads a value whose members, if it is an array or object, are read by the
given reader. Without such a reader there may be no array or object. -/
def readValueWith (member? : Option (JsonReader Json)) : JsonReader Json := fun text =>
  match skipBlanks text with
  | [] => .error .truncated
  | 'n' :: rest => do
    let ((), rest) ← expectWord "ull".toList rest
    return (.null, rest)
  | 't' :: rest => do
    let ((), rest) ← expectWord "rue".toList rest
    return (.bool true, rest)
  | 'f' :: rest => do
    let ((), rest) ← expectWord "alse".toList rest
    return (.bool false, rest)
  | '"' :: rest => do
    let (value, rest) ← readString rest
    return (.text value, rest)
  | '[' :: rest =>
    match member? with
    | none => .error .malformed
    | some member => do
      let (members, rest) ← readOptionalMembers ']' member rest
      return (.array members, rest)
  | '{' :: rest =>
    match member? with
    | none => .error .malformed
    | some member => do
      let (members, rest) ← readOptionalMembers '}' (readNamed member) rest
      return (.object members, rest)
  | first :: rest =>
    if startsNumber first then do
      let (value, rest) ← readNumber (first :: rest)
      return (.number value, rest)
    else .error .malformed

/-- Reads a value with at most the given number of arrays and objects one
inside the other. -/
def readValue : Nat → JsonReader Json
  | 0 => readValueWith none
  | depth + 1 => readValueWith (some (readValue depth))

/-- How deep arrays and objects may be nested. -/
def greatestDepth : Nat := 127

/-- Reads a text that consists of one value. -/
def read (text : List Char) : Except JsonFault Json := do
  let (value, rest) ← readValue greatestDepth text
  if (skipBlanks rest).isEmpty then return value else .error .malformed

end Json

end FirstPaint
