import FirstPaint.Json.Value
import FirstPaint.Settings.Basic

/-!
# Reading settings

Settings are read from JSON. Every part has a default, so an empty object is a
complete text. A record may be written as an object with named members in any
order, or as an array with the members in their fixed order, of which the last
ones may be missing. Unknown and repeated names are refused where they stand.

The first fault from left to right is the one that is reported. A value of the
wrong kind is therefore read far enough to see whether it is well formed.
-/

set_option autoImplicit false

namespace FirstPaint

namespace Json

/-- The fault of a value that is not of the kind expected: its own fault if its
first token has one, else that it does not fit. -/
def faultOf {α : Type} : Except JsonFault α → JsonFault
  | .error fault => fault
  | .ok _ => .mismatched

/-- The fault of the value at the front of a text, where a value of another
kind is expected. -/
def refuse (text : List Char) : JsonFault :=
  match text with
  | [] => .truncated
  | 'n' :: rest => faultOf (expectWord "ull".toList rest)
  | 't' :: rest => faultOf (expectWord "rue".toList rest)
  | 'f' :: rest => faultOf (expectWord "alse".toList rest)
  | '"' :: rest => faultOf (readString rest)
  | '[' :: _ => .mismatched
  | '{' :: _ => .mismatched
  | first :: _ => if startsNumber first then faultOf (readNumber text) else .malformed

/-- Takes away a punctuation mark, with blanks before it. -/
def expectMark (mark : Char) : JsonReader Unit := fun text =>
  match skipBlanks text with
  | [] => .error .truncated
  | first :: rest => if first = mark then .ok ((), rest) else .error .malformed

/-- A whole number of at most 64 bits. -/
def readWhole : JsonReader Nat := fun text =>
  match skipBlanks text with
  | [] => .error .truncated
  | first :: rest =>
    if startsNumber first then do
      match ← readNumber (first :: rest) with
      | (.whole value, rest) => return (value, rest)
      | _ => .error .mismatched
    else .error (refuse (first :: rest))

/-- The value that means nothing. -/
def readNull : JsonReader Unit := fun text =>
  match skipBlanks text with
  | 'n' :: rest => expectWord "ull".toList rest
  | text => .error (refuse text)

/-! ## Records -/

/-- A member of a record: its name, and how its value changes the record. -/
structure Field (σ : Type) where
  /-- The name. -/
  name : String
  /-- Reads the value. -/
  read : σ → JsonReader σ

section Records

variable {σ : Type} (fields : List (Field σ))

/-- Reads a name and its value. The name has to be that of a field and must not
have been seen before. -/
def readField (seen : List String) (record : σ) : JsonReader (String × σ) := fun text =>
  match text with
  | [] => .error .truncated
  | '"' :: rest => do
    let (name, rest) ← readString rest
    match fields.find? (·.name == name) with
    | none => .error .mismatched
    | some field =>
      if name ∈ seen then .error .mismatched
      else do
        let ((), rest) ← expectMark ':' rest
        let (changed, rest) ← field.read record rest
        return ((name, changed), rest)
  | _ => .error .malformed

/-- Reads named members up to the closing brace. The first argument bounds
their number. -/
def readNamedFields : Nat → List String → σ → JsonReader σ
  | 0, _, _ => fun _ => .error .truncated
  | bound + 1, seen, record => fun text => do
    let ((name, changed), rest) ← readField fields seen record text
    match skipBlanks rest with
    | [] => .error .truncated
    | '}' :: rest => return (changed, rest)
    | ',' :: rest => readNamedFields bound (name :: seen) changed (skipBlanks rest)
    | _ => .error .malformed

/-- Reads what follows a member in an array: further members in the order of
the fields, each after a comma, up to the closing bracket. -/
def readFurtherFields : List (Field σ) → σ → JsonReader σ
  | [], record => fun text => do
    let ((), rest) ← expectMark ']' text
    return (record, rest)
  | field :: others, record => fun text =>
    match skipBlanks text with
    | [] => .error .truncated
    | ']' :: rest => .ok (record, rest)
    | ',' :: rest =>
      match skipBlanks rest with
      | [] => .error .truncated
      | ']' :: _ => .error .malformed
      | rest => do
        let (changed, rest) ← field.read record rest
        readFurtherFields others changed rest
    | _ => .error .malformed

/-- Reads members in the order of the fields up to the closing bracket. -/
def readFieldsInOrder (record : σ) : JsonReader σ := fun text =>
  match fields, skipBlanks text with
  | _, [] => .error .truncated
  | _, ']' :: rest => .ok (record, rest)
  | [], _ => .error .malformed
  | field :: others, text => do
    let (changed, rest) ← field.read record text
    readFurtherFields others changed rest

/-- Reads a record, given the one with all defaults. -/
def readRecord (defaults : σ) : JsonReader σ := fun text =>
  match skipBlanks text with
  | '{' :: rest =>
    match skipBlanks rest with
    | '}' :: rest => .ok (defaults, rest)
    | text => readNamedFields fields (text.length + 1) [] defaults text
  | '[' :: rest => readFieldsInOrder fields defaults rest
  | text => .error (refuse text)

end Records

end Json

namespace PassKind

/-- The pass of a name that has been read. -/
def ofReadName (name : String) : Except JsonFault PassKind :=
  match ofName? name with
  | some kind => .ok kind
  | none => .error .mismatched

/-- Reads the name of a pass: a text, or an object whose only member has that
name and no value. A member without a name breaks the grammar, whatever stands
in place of the name. -/
def read : JsonReader PassKind := fun text =>
  match Json.skipBlanks text with
  | [] => .error .truncated
  | '"' :: rest => do
    let (name, rest) ← Json.readString rest
    return (← ofReadName name, rest)
  | '{' :: rest =>
    match Json.skipBlanks rest with
    | [] => .error .truncated
    | '"' :: rest => do
      let (name, rest) ← Json.readString rest
      let kind ← ofReadName name
      let ((), rest) ← Json.expectMark ':' rest
      let ((), rest) ← Json.readNull rest
      let ((), rest) ← Json.expectMark '}' rest
      return (kind, rest)
    | _ => .error .malformed
  | _ => .error .malformed

end PassKind

namespace Settings

/-- Reads a list of passes. -/
def readPasses : JsonReader (List PassKind) := fun text =>
  match Json.skipBlanks text with
  | '[' :: rest => Json.readOptionalMembers ']' PassKind.read rest
  | text => .error (Json.refuse text)

/-- The settings of the rendering pass: the limit. -/
def limitField : Json.Field Nat where
  name := limitName
  read _ := Json.readWhole

/-- The passes. -/
def passesField : Json.Field Settings where
  name := passesName
  read settings text := do
    let (passes, rest) ← readPasses text
    return ({ settings with passes }, rest)

/-- The settings of the rendering pass. -/
def renderingField : Json.Field Settings where
  name := renderingName
  read settings text := do
    let (styleLimit, rest) ← Json.readRecord [limitField] ({} : Settings).styleLimit text
    return ({ settings with styleLimit }, rest)

/-- Reads settings without judging them. -/
def readJson (text : List Char) : Except JsonFault Settings := do
  let (settings, rest) ← Json.readRecord [passesField, renderingField] {} text
  if (Json.skipBlanks rest).isEmpty then return settings else .error .malformed

/-- The settings that a text stands for, if they are accepted. -/
def ofJson (text : String) : Except SettingsError Settings :=
  match readJson text.toList with
  | .error fault => .error (.unreadable fault)
  | .ok settings =>
    match settings.fault? with
    | some error => .error error
    | none => .ok settings

end Settings

end FirstPaint
