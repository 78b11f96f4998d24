/-!
# Magnitudes in double precision

Lengths and ratios are non-negative numbers kept to double precision: a whole
number of at most 53 binary digits, counted in steps of a power of two, or
infinity. This module holds that type and the one rounding rule on it, which
takes an exact fraction to the nearest magnitude. Reading a decimal, dividing
and multiplying are that rule applied to the exact result, so nothing here
depends on machine arithmetic.

The step of a finite magnitude is `2 ^ scale` units, and the unit is
`2 ^ (-1074)`, the least positive magnitude. With this choice of unit every
exponent is a natural number.
-/

set_option autoImplicit false

namespace FirstPaint

/-- The whole number nearest to the fraction `numerator / denominator`, where
an exact half goes to the even neighbour. -/
def divNearest (numerator denominator : Nat) : Nat :=
  let quotient := numerator / denominator
  let twiceRest := 2 * (numerator % denominator)
  if twiceRest < denominator then quotient
  else if denominator < twiceRest then quotient + 1
  else if quotient % 2 = 0 then quotient else quotient + 1

/-- A non-negative number in double precision. -/
inductive Magnitude where
  /-- The number `significand * 2 ^ scale` in units of `2 ^ (-1074)`. -/
  | finite (significand scale : Nat)
  /-- Beyond every finite magnitude. -/
  | infinite
deriving DecidableEq, Repr

namespace Magnitude

/-- Units in one: the unit is `2 ^ (-1074)`. -/
def unitsPerOne : Nat := Nat.pow 2 1074

/-- One more than the greatest significand. -/
def significandBound : Nat := Nat.pow 2 53

/-- The scale of the greatest finite magnitude, `(2 ^ 53 - 1) * 2 ^ 971`. -/
def greatestScale : Nat := 2045

instance : Inhabited Magnitude := ⟨.finite 0 0⟩

/-- The finite magnitude with the given significand and scale, after the carry
of a significand that has reached the bound, or infinity past the greatest
scale. -/
def ofRounded (significand scale : Nat) : Magnitude :=
  let (significand, scale) :=
    if significand = significandBound then (significandBound / 2, scale + 1)
    else (significand, scale)
  if greatestScale < scale then .infinite else .finite significand scale

/-- The magnitude nearest to the fraction `numerator / denominator`. -/
def ofFraction (numerator denominator : Nat) : Magnitude :=
  let units := numerator * unitsPerOne
  -- The coarsest step at which 53 binary digits remain; small values keep step one.
  let scale := Nat.log2 (units / denominator) - 52
  ofRounded (divNearest units (denominator * Nat.pow 2 scale)) scale

/-- The magnitude nearest to a whole number. -/
def ofNat (number : Nat) : Magnitude := ofFraction number 1

/-- The number of units in a finite magnitude. -/
def units (significand scale : Nat) : Nat := significand * Nat.pow 2 scale

/-- Zero, the only magnitude that is not positive. -/
def isZero : Magnitude → Bool
  | .finite significand _ => significand == 0
  | .infinite => false

/-- Quotient of two magnitudes, or `none` where it has no value: zero by zero
and infinity by infinity. -/
def div? : Magnitude → Magnitude → Option Magnitude
  | .infinite, .infinite => none
  | .infinite, .finite _ _ => some .infinite
  | .finite _ _, .infinite => some (.finite 0 0)
  | .finite dividend dividendScale, .finite divisor divisorScale =>
    if divisor = 0 then
      if dividend = 0 then none else some .infinite
    else
      some (ofFraction (units dividend dividendScale) (units divisor divisorScale))

/-- Product of two magnitudes, or `none` for zero times infinity. -/
def mul? : Magnitude → Magnitude → Option Magnitude
  | .finite left leftScale, .finite right rightScale =>
    some (ofFraction (units left leftScale * units right rightScale)
      (unitsPerOne * unitsPerOne))
  | left, right => if left.isZero || right.isZero then none else some .infinite

/-- The greatest whole number that is at most the magnitude, or `none` at
infinity. -/
def floor? : Magnitude → Option Nat
  | .finite significand scale => some (units significand scale / unitsPerOne)
  | .infinite => none

end Magnitude

end FirstPaint
