import FirstPaint.Json.Quote
import FirstPaint.Json.Token

/-!
# Settings

Which passes run over a document and in which order, and how many bytes of
author styles a document may carry. Settings are accepted if no pass is listed
twice and the limit is not zero.
-/

set_option autoImplicit false

namespace FirstPaint

/-- A pass over a document. -/
inductive PassKind where
  /-- Layouts are applied and the boilerplate is removed. -/
  | serverRendering
  /-- The head is put into canonical order. -/
  | headOrder
deriving DecidableEq, Repr

namespace PassKind

/-- Every pass. -/
def all : List PassKind := [.serverRendering, .headOrder]

/-- The name of a pass. -/
def name : PassKind → String
  | .serverRendering => "server-side-rendering"
  | .headOrder => "reorder-head"

/-- The pass of exactly that name. -/
def ofName? (name : String) : Option PassKind := all.find? (·.name == name)

end PassKind

/-- What the optimizer does to a document. -/
structure Settings where
  /-- The passes in the order in which they run. -/
  passes : List PassKind := [.serverRendering, .headOrder]
  /-- The greatest number of bytes of author styles. -/
  styleLimit : Nat := 75000
deriving DecidableEq, Repr

instance : Inhabited Settings := ⟨{}⟩

/-- Why settings are not accepted. -/
inductive SettingsError where
  /-- The text cannot be read as settings. -/
  | unreadable (fault : JsonFault)
  /-- A pass is listed again. -/
  | repeatedPass (kind : PassKind)
  /-- No rule would ever be accepted. -/
  | noStyleBudget
deriving DecidableEq, Repr

/-- The wording of a refusal. What is wrong with a text that cannot be read is
said by the kind of its fault alone. -/
def SettingsError.message? : SettingsError → Option String
  | .unreadable _ => none
  | .repeatedPass kind => some ("transformer `" ++ kind.name ++ "` is listed more than once")
  | .noStyleBudget =>
    some "server_side_rendering.max_css_byte_count must be greater than zero"

namespace Settings

/-- The first pass in a list that stands in the list before it. -/
def firstRepeated? (earlier : List PassKind) : List PassKind → Option PassKind
  | [] => none
  | kind :: rest =>
    if kind ∈ earlier then some kind else firstRepeated? (earlier ++ [kind]) rest

/-- What is wrong with settings. A repeated pass is reported before an empty
budget. -/
def fault? (settings : Settings) : Option SettingsError :=
  match firstRepeated? [] settings.passes with
  | some kind => some (.repeatedPass kind)
  | none => if settings.styleLimit = 0 then some .noStyleBudget else none

/-! ## The written form -/

/-- The name under which the passes are written. -/
def passesName : String := "transformers"

/-- The name under which the settings of the rendering pass are written. -/
def renderingName : String := "server_side_rendering"

/-- The name under which the limit is written. -/
def limitName : String := "max_css_byte_count"

/-- A name and the colon after it. -/
def label (name : String) : List Char := Json.quote name ++ [':']

/-- The settings as a JSON object. -/
def toJson (settings : Settings) : List Char :=
  '{' :: label passesName ++
    '[' :: Json.commaSeparated (settings.passes.map fun kind => Json.quote kind.name) ++
    ']' :: ',' :: label renderingName ++
    '{' :: label limitName ++ Nat.toDigits 10 settings.styleLimit ++ ['}', '}']

end Settings

end FirstPaint
