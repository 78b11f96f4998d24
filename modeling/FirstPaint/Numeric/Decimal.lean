import FirstPaint.Numeric.Magnitude

/-!
# Decimal notation

Two ways to write a magnitude in decimal digits, both positional: with as few
digits as identify it among all magnitudes, and with a fixed number of places.

The shortest notation looks at the decimal grids `10 ^ k` from the coarsest to
the finest and takes the first one that has a point which rounds back to the
magnitude. All grids down to `10 ^ (-324)` are multiples of the last, so the
search counts in units of `10 ^ (-324)` and stays within the natural numbers.
-/

set_option autoImplicit false

namespace FirstPaint

namespace Decimal

/-- The digits of a whole number, most significant first. -/
def digits (number : Nat) : List Char := Nat.toDigits 10 number

/-- The digits of a number, filled up with zeros on the left to a given width. -/
def paddedDigits (width number : Nat) : List Char :=
  let written := digits number
  List.replicate (width - written.length) '0' ++ written

/-- The list without the zeros at its end. -/
def dropTrailingZeros (written : List Char) : List Char :=
  (written.reverse.dropWhile (· == '0')).reverse

/-- The value of a list of decimal digits. -/
def value (written : List Char) : Nat := Nat.ofDigitChars 10 written 0

/-- Places after the point of the finest grid: the least positive magnitude is
`5 * 10 ^ (-324)` to one digit. -/
def finestPlaces : Nat := 324

/-- The numbers that round to a given magnitude form an interval around it.
Its ends are counted in quarters of a unit, so that both are whole. -/
structure RoundingInterval where
  /-- Lower end. -/
  lower : Nat
  /-- The magnitude itself. -/
  centre : Nat
  /-- Upper end. -/
  upper : Nat
  /-- The ends round to the magnitude too. -/
  closed : Bool

/-- The numbers that round to a finite magnitude reach half a step up and half
a step down; below the least significand of a scale the step is half as wide.
A number at an end goes to the even significand. -/
def roundingInterval (significand scale : Nat) : RoundingInterval :=
  let quarter := Nat.pow 2 scale
  let narrow := significand == Magnitude.significandBound / 2 && scale != 0
  { lower := (4 * significand - if narrow then 1 else 2) * quarter
    centre := 4 * significand * quarter
    upper := (4 * significand + 2) * quarter
    closed := significand % 2 == 0 }

/-- Quarters of a unit in one: a fraction of the finest grid has this
denominator when its numerator is counted in quarters. -/
def quartersPerOne : Nat := 4 * Magnitude.unitsPerOne

/-- Whether `point` in units of the finest grid lies in the interval. -/
def RoundingInterval.admits (interval : RoundingInterval) (point : Nat) : Bool :=
  let position := point * quartersPerOne
  let lower := interval.lower * Nat.pow 10 finestPlaces
  let upper := interval.upper * Nat.pow 10 finestPlaces
  if interval.closed then lower ≤ position && position ≤ upper
  else lower < position && position < upper

/-- The point of the grid with step `10 ^ exponent` (in units of the finest
grid) that lies in the interval nearest to its centre. The point above wins at
equal distance. -/
def RoundingInterval.onGrid? (interval : RoundingInterval) (exponent : Nat) : Option Nat :=
  let step := Nat.pow 10 exponent
  let centre := interval.centre * Nat.pow 10 finestPlaces
  let below := centre / (quartersPerOne * step) * step
  let above := below + step
  match interval.admits below, interval.admits above with
  | true, true =>
    if above * quartersPerOne - centre ≤ centre - below * quartersPerOne then some above
    else some below
  | true, false => some below
  | false, true => some above
  | false, false => none

/-- The first grid with a point in the interval, from `10 ^ exponent` down. -/
def RoundingInterval.coarsestPoint (interval : RoundingInterval) : Nat → Nat
  | 0 => (interval.onGrid? 0).getD 0
  | exponent + 1 =>
    match interval.onGrid? (exponent + 1) with
    | some point => point
    | none => interval.coarsestPoint exponent

/-- A grid coarser than every finite magnitude. -/
def coarsestExponent : Nat := finestPlaces + 309

/-- Positional notation of a number of `10 ^ (-places)` parts: whole part, and
the fraction with all its places. -/
def positional (places parts : Nat) : List Char × List Char :=
  (digits (parts / Nat.pow 10 places), paddedDigits places (parts % Nat.pow 10 places))

/-- Shortest digits of a finite magnitude that read back as it. There is no
exponent, and no point when the fraction is zero. -/
def shortest (significand scale : Nat) : List Char :=
  if significand = 0 then ['0']
  else
    let point := (roundingInterval significand scale).coarsestPoint coarsestExponent
    let (whole, fraction) := positional finestPlaces point
    match dropTrailingZeros fraction with
    | [] => whole
    | fraction => whole ++ '.' :: fraction

/-- A finite magnitude with a fixed number of places, rounded from its exact
value; an exact half goes to the even last digit. -/
def fixed (places significand scale : Nat) : List Char :=
  let parts :=
    divNearest (Magnitude.units significand scale * Nat.pow 10 places) Magnitude.unitsPerOne
  let (whole, fraction) := positional places parts
  whole ++ '.' :: fraction

end Decimal

namespace Magnitude

/-- Shortest positional notation that reads back as the magnitude. -/
def toDecimal : Magnitude → List Char
  | .finite significand scale => Decimal.shortest significand scale
  | .infinite => ['i', 'n', 'f']

/-- Notation with a fixed number of places. -/
def toFixed (places : Nat) : Magnitude → List Char
  | .finite significand scale => Decimal.fixed places significand scale
  | .infinite => ['i', 'n', 'f']

/-- The magnitude nearest to the decimal with the given digits before and
after the point. -/
def ofDecimal (whole fraction : List Char) : Magnitude :=
  ofFraction (Decimal.value (whole ++ fraction)) (Nat.pow 10 fraction.length)

end Magnitude

end FirstPaint
