import FirstPaint.Numeric.Decimal

/-!
# Lengths

The values of width and height attributes: a decimal numeral with an optional
unit, the keywords auto and fluid, or nothing at all. The grammar is narrower
than that of style sheets: no sign, no exponent, at least one digit on either
side of the point, and units in lower case only.
-/

set_option autoImplicit false

namespace FirstPaint

/-- Units of length. -/
inductive MeasureUnit where
  /-- Pixels, the unit of a bare numeral. -/
  | px
  /-- Font size of the element. -/
  | em
  /-- Font size of the document. -/
  | rem
  /-- Hundredths of the height of the viewport. -/
  | vh
  /-- Hundredths of the width of the viewport. -/
  | vw
  /-- Hundredths of the smaller side of the viewport. -/
  | vmin
  /-- Hundredths of the larger side of the viewport. -/
  | vmax
deriving DecidableEq, Repr

namespace MeasureUnit

/-- Every unit. -/
def all : List MeasureUnit := [.px, .em, .rem, .vh, .vw, .vmin, .vmax]

/-- The name of a unit. -/
def name : MeasureUnit → String
  | .px => "px"
  | .em => "em"
  | .rem => "rem"
  | .vh => "vh"
  | .vw => "vw"
  | .vmin => "vmin"
  | .vmax => "vmax"

/-- The unit that the text after a numeral stands for. No text means pixels. -/
def ofSuffix? (suffix : List Char) : Option MeasureUnit :=
  if suffix.isEmpty then some .px else all.find? (·.name.toList == suffix)

end MeasureUnit

/-- The value of a width or height attribute. -/
inductive Length where
  /-- No value was given. -/
  | undefined
  /-- The size follows from the content. -/
  | auto
  /-- The size follows from what is loaded. -/
  | fluid
  /-- A number of units. -/
  | measure (numeral : Magnitude) (unit : MeasureUnit)
deriving DecidableEq, Repr

/-- Why a value is not accepted as a length. -/
inductive LengthError where
  /-- The keyword auto has no meaning at this place. -/
  | autoNotAllowed
  /-- The keyword fluid has no meaning at this place. -/
  | fluidNotAllowed
  /-- The value is neither a keyword nor a numeral with a unit. -/
  | malformed (value : String)
deriving DecidableEq, Repr

/-- The wording of a refusal. -/
def LengthError.message : LengthError → String
  | .autoNotAllowed => "`auto` is not allowed here"
  | .fluidNotAllowed => "`fluid` is not allowed here"
  | .malformed value => "`" ++ value ++ "` is not a valid length"

namespace Length

/-- The decimal numeral at the start of a text, with what follows it. A point
has to have digits on both sides. -/
def readNumeral? (text : List Char) : Option (Magnitude × List Char) :=
  let whole := text.takeWhile Char.isDigit
  if whole.isEmpty then none
  else
    match text.dropWhile Char.isDigit with
    | '.' :: rest =>
      let fraction := rest.takeWhile Char.isDigit
      if fraction.isEmpty then none
      else some (Magnitude.ofDecimal whole fraction, rest.dropWhile Char.isDigit)
    | rest => some (Magnitude.ofDecimal whole [], rest)

/-- The measure that a text consists of. -/
def readMeasure? (text : List Char) : Option Length := do
  let (numeral, suffix) ← readNumeral? text
  return .measure numeral (← MeasureUnit.ofSuffix? suffix)

/-- Reads the value of an attribute; the flags say which keywords are accepted.
An absent or empty value is undefined. -/
def parse (value? : Option String) (autoAllowed fluidAllowed : Bool) :
    Except LengthError Length :=
  match value?.getD "" with
  | "" => .ok .undefined
  | "auto" => if autoAllowed then .ok .auto else .error .autoNotAllowed
  | "fluid" => if fluidAllowed then .ok .fluid else .error .fluidNotAllowed
  | value =>
    match readMeasure? value.toList with
    | some length => .ok length
    | none => .error (.malformed value)

/-- A number of pixels. -/
def px (number : Nat) : Length := .measure (Magnitude.ofNat number) .px

/-- Whether a value was given. -/
def isDefined (length : Length) : Bool := length != .undefined

/-- Whether the value is the keyword auto. -/
def isAuto (length : Length) : Bool := length == .auto

/-- The number of units of a measure. -/
def numeral? : Length → Option Magnitude
  | .measure numeral _ => some numeral
  | _ => none

/-- The unit of a measure. -/
def unit? : Length → Option MeasureUnit
  | .measure _ unit => some unit
  | _ => none

/-- The length as it is written in a style declaration. -/
def css : Length → String
  | .undefined => ""
  | .auto => "auto"
  | .fluid => "fluid"
  | .measure numeral unit => String.ofList numeral.toDecimal ++ unit.name

end Length

end FirstPaint
