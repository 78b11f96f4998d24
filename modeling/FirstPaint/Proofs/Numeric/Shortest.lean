import FirstPaint.Numeric.Decimal
import FirstPaint.Proofs.Numeric.Rounding

/-!
# The shortest notation reads back

The shortest notation of a magnitude is a point of a decimal grid that lies among the numbers
which round to the magnitude. Whatever grid it is found on, its digits are read as a fraction that
is rounded to the magnitude again (`ofFraction_coarsestPoint`). It is found on some grid: a step of
the finest one is smaller than half a step between magnitudes, so the first point above a
magnitude rounds to it (`RoundingInterval.exists_onGrid?_zero`).

Digits are cut off and filled up with zeros only. That changes the number and the denominator by
the same power of ten, which rounding does not see (`ofFraction_scale`).
-/

set_option autoImplicit false

namespace FirstPaint

/-! ## Fractions in other terms -/

/-- Rounding depends on the value of a fraction alone. -/
theorem Magnitude.ofFraction_scale {denominator factor : Nat} (positive : 0 < denominator)
    (factorPositive : 0 < factor) (numerator : Nat) :
    ofFraction (numerator * factor) (denominator * factor) = ofFraction numerator denominator := by
  have units : numerator * factor * unitsPerOne = numerator * unitsPerOne * factor :=
    Nat.mul_right_comm _ _ _
  obtain ⟨scale, inScale⟩ := exists_inScale positive (numerator * unitsPerOne)
  have width : denominator * factor * 2 ^ scale = denominator * 2 ^ scale * factor :=
    Nat.mul_right_comm _ _ _
  have scaled : InScale (numerator * unitsPerOne * factor) (denominator * factor) scale := by
    constructor
    · rw [width, ← Nat.mul_assoc]
      exact inScale.low.imp_right (Nat.mul_le_mul_right factor)
    · rw [width, ← Nat.mul_assoc]
      exact Nat.mul_lt_mul_of_pos_right inScale.high factorPositive
  have step : 0 < denominator * 2 ^ scale := Nat.mul_pos positive (Nat.two_pow_pos scale)
  have nearest := (nearest_divNearest step (numerator * unitsPerOne)).scale factorPositive
  rw [ofFraction_eq, ofFraction_eq, units, inScale.ofUnits_eq positive,
    scaled.ofUnits_eq (Nat.mul_pos positive factorPositive), width,
    nearest.divNearest_eq (Nat.mul_pos step factorPositive)]

namespace Decimal

/-! ## Digits and their value -/

section Digits

variable (number width : Nat) (written others : List Char)

theorem value_append :
    value (written ++ others) = value written * 10 ^ others.length + value others := by
  rw [value, value, value, Nat.ofDigitChars_append, Nat.ofDigitChars_eq_ofDigitChars_zero,
    Nat.mul_comm]

theorem value_digits : value (digits number) = number :=
  Nat.ofDigitChars_toDigits (by decide) (by decide)

theorem value_replicate_zero : value (List.replicate width '0') = 0 := by
  rw [value, Nat.ofDigitChars_replicate_zero, Nat.mul_zero]

theorem value_paddedDigits : value (paddedDigits width number) = number := by
  rw [paddedDigits, value_append, value_replicate_zero, Nat.zero_mul, Nat.zero_add, value_digits]

theorem length_paddedDigits {width : Nat} (positive : 0 < width) (short : number < 10 ^ width) :
    (paddedDigits width number).length = width := by
  have bound : (digits number).length ≤ width :=
    (Nat.length_toDigits_le_iff (by decide) positive).mpr short
  rw [paddedDigits, List.length_append, List.length_replicate, Nat.sub_add_cancel bound]

/-- Only zeros are cut off. -/
theorem exists_dropTrailingZeros :
    ∃ zeros, written = dropTrailingZeros written ++ List.replicate zeros '0' := by
  refine ⟨(written.reverse.takeWhile (· == '0')).length, ?_⟩
  have all : written.reverse.takeWhile (· == '0') =
      List.replicate (written.reverse.takeWhile (· == '0')).length '0' := by
    refine List.eq_replicate_iff.mpr ⟨rfl, fun digit member => ?_⟩
    exact beq_iff_eq.mp (List.all_eq_true.mp List.all_takeWhile digit member)
  have split := List.takeWhile_append_dropWhile (p := (· == '0')) (l := written.reverse)
  rw [dropTrailingZeros, ← List.reverse_replicate, ← all, ← List.reverse_append, split,
    List.reverse_reverse]

end Digits

/-- The digits of a number of parts, without zeros at the end, are read as that many parts. -/
theorem ofDecimal_positional {places : Nat} (positive : 0 < places) (parts : Nat) :
    Magnitude.ofDecimal (positional places parts).1 (dropTrailingZeros (positional places parts).2) =
      Magnitude.ofFraction parts (10 ^ places) := by
  dsimp only [positional]
  generalize isFraction : paddedDigits places (parts % Nat.pow 10 places) = fraction
  have one : 0 < 10 ^ places := Nat.pow_pos (by decide)
  have length : fraction.length = places :=
    isFraction ▸ length_paddedDigits _ positive (Nat.mod_lt parts one)
  have wholeValue : value (digits (parts / 10 ^ places) ++ fraction) = parts := by
    rw [value_append, length, ← isFraction, value_digits, value_paddedDigits]
    exact Nat.div_add_mod' parts (10 ^ places)
  obtain ⟨zeros, padded⟩ := exists_dropTrailingZeros fraction
  have places_eq : places = (dropTrailingZeros fraction).length + zeros := by
    rw [← length]
    exact (congrArg List.length padded).trans (by rw [List.length_append, List.length_replicate])
  rw [padded, ← List.append_assoc, value_append, value_replicate_zero, List.length_replicate,
    Nat.add_zero] at wholeValue
  have scaled := Magnitude.ofFraction_scale
    (Nat.pow_pos (a := 10) (n := (dropTrailingZeros fraction).length) (by decide))
    (Nat.pow_pos (a := 10) (n := zeros) (by decide))
    (value (digits (parts / 10 ^ places) ++ dropTrailingZeros fraction))
  rw [wholeValue, ← Nat.pow_add, ← places_eq] at scaled
  exact scaled.symm

/-! ## Points among the numbers that round to a magnitude -/

section Points

variable {significand scale : Nat} {interval : RoundingInterval} {point : Nat}

theorem RoundingInterval.admits_of_onGrid? {exponent : Nat}
    (found : interval.onGrid? exponent = some point) : interval.admits point = true := by
  unfold onGrid? at found
  dsimp only at found
  split at found
  next below above =>
    split at found <;> cases found
    · exact above
    · exact below
  next below _ => cases found; exact below
  next above => cases found; exact above
  next => exact absurd found (by simp)

/-- If the finest grid has a point, the search finds one. -/
theorem RoundingInterval.admits_coarsestPoint (finest : ∃ point, interval.onGrid? 0 = some point)
    (exponent : Nat) : interval.admits (interval.coarsestPoint exponent) = true := by
  induction exponent with
  | zero =>
      obtain ⟨point, found⟩ := finest
      rw [coarsestPoint, found, Option.getD_some]
      exact admits_of_onGrid? found
  | succ exponent ih =>
      rw [coarsestPoint]
      split
      next point found => exact admits_of_onGrid? found
      next => exact ih

/-- A step of the finest grid is not wider than a unit. -/
theorem quartersPerOne_bounds : 0 < quartersPerOne ∧ quartersPerOne ≤ 10 ^ finestPlaces := by
  decide +kernel

/-- How far the interval of a magnitude reaches below it, in quarters of a step. -/
def reachBelow (significand scale : Nat) : Nat :=
  if significand == Magnitude.significandBound / 2 && scale != 0 then 1 else 2

/-- A point is admitted if it lies between the ends of the interval, or at an end that is even. -/
theorem admits_roundingInterval_iff : (roundingInterval significand scale).admits point = true ↔
    if significand % 2 = 0 then
      (4 * significand - reachBelow significand scale) * (10 ^ finestPlaces * 2 ^ scale) ≤
          point * quartersPerOne ∧
        point * quartersPerOne ≤ (4 * significand + 2) * (10 ^ finestPlaces * 2 ^ scale)
    else
      (4 * significand - reachBelow significand scale) * (10 ^ finestPlaces * 2 ^ scale) <
          point * quartersPerOne ∧
        point * quartersPerOne < (4 * significand + 2) * (10 ^ finestPlaces * 2 ^ scale) := by
  have width (quarters : Nat) : quarters * Nat.pow 2 scale * Nat.pow 10 finestPlaces =
      quarters * (10 ^ finestPlaces * 2 ^ scale) := by
    rw [Nat.pow_eq, Nat.pow_eq, Nat.mul_assoc, Nat.mul_comm (2 ^ scale)]
  unfold RoundingInterval.admits roundingInterval
  dsimp only
  rw [width, width, reachBelow]
  by_cases even : significand % 2 = 0
  · simp only [even, beq_self_eq_true, if_true, Bool.and_eq_true, decide_eq_true_eq]
  · simp only [even, beq_iff_eq, if_false, Bool.and_eq_true, decide_eq_true_eq]

/-- On the finest grid there is a point: the first one above the magnitude. -/
theorem exists_onGrid?_zero (significand scale : Nat) :
    ∃ point, (roundingInterval significand scale).onGrid? 0 = some point := by
  obtain ⟨positive, fine⟩ := quartersPerOne_bounds
  have wide : 10 ^ finestPlaces ≤ 10 ^ finestPlaces * 2 ^ scale :=
    Nat.le_mul_of_pos_right _ (Nat.two_pow_pos scale)
  have centre : (roundingInterval significand scale).centre * Nat.pow 10 finestPlaces =
      4 * significand * (10 ^ finestPlaces * 2 ^ scale) := by
    rw [roundingInterval, Nat.pow_eq, Nat.pow_eq, Nat.mul_assoc, Nat.mul_comm (2 ^ scale)]
  have one : Nat.pow 10 0 = 1 := rfl
  unfold RoundingInterval.onGrid?
  dsimp only
  rw [centre, one, Nat.mul_one, Nat.mul_one]
  have below := Nat.div_mul_le_self (4 * significand * (10 ^ finestPlaces * 2 ^ scale))
    quartersPerOne
  have above := Nat.lt_div_mul_add (a := 4 * significand * (10 ^ finestPlaces * 2 ^ scale)) positive
  generalize 4 * significand * (10 ^ finestPlaces * 2 ^ scale) / quartersPerOne = place at *
  -- The point above is less than half a step of the magnitude away.
  have admitted : (roundingInterval significand scale).admits (place + 1) = true := by
    have drawn : (4 * significand - reachBelow significand scale) *
        (10 ^ finestPlaces * 2 ^ scale) ≤ 4 * significand * (10 ^ finestPlaces * 2 ^ scale) :=
      Nat.mul_le_mul_right _ (Nat.sub_le _ _)
    rw [admits_roundingInterval_iff, Nat.add_mul place, Nat.one_mul,
      Nat.add_mul (4 * significand)]
    generalize 10 ^ finestPlaces * 2 ^ scale = width at *
    split <;> omega
  rw [admitted]
  cases (roundingInterval significand scale).admits place with
  | true =>
      dsimp only
      split
      · exact ⟨_, rfl⟩
      · exact ⟨_, rfl⟩
  | false => exact ⟨_, rfl⟩

theorem reachBelow_le : reachBelow significand scale ≤ 2 := by
  unfold reachBelow
  split <;> decide

theorem reachBelow_of_power (power : significand = 2 ^ 52) (coarse : scale ≠ 0) :
    reachBelow significand scale = 1 := by
  have half : Magnitude.significandBound / 2 = 2 ^ 52 := by decide
  simp [reachBelow, half, power, coarse]

/-- What is admitted to the interval of a magnitude is rounded to it. -/
theorem rounds_of_admits (admitted : (roundingInterval significand scale).admits point = true) :
    Magnitude.Rounds (point * Magnitude.unitsPerOne) (10 ^ finestPlaces) significand scale := by
  have position : point * quartersPerOne = 4 * (point * Magnitude.unitsPerOne) :=
    Nat.mul_left_comm _ _ _
  have reach : reachBelow significand scale ≤ 2 := reachBelow_le
  have wider : (4 * significand - 2) * (10 ^ finestPlaces * 2 ^ scale) ≤
      (4 * significand - reachBelow significand scale) * (10 ^ finestPlaces * 2 ^ scale) :=
    Nat.mul_le_mul_right _ (by omega)
  rw [admits_roundingInterval_iff, position] at admitted
  split at admitted
  next even =>
    refine ⟨(Nat.lt_or_eq_of_le admitted.2).imp_right fun tie => ⟨tie, even⟩,
      (Nat.lt_or_eq_of_le (Nat.le_trans wider admitted.1)).imp_right fun tie => ⟨tie, even⟩, ?_⟩
    intro power coarse
    rw [← reachBelow_of_power power coarse]
    exact admitted.1
  next =>
    refine ⟨.inl admitted.2, .inl (Nat.lt_of_le_of_lt wider admitted.1), ?_⟩
    intro power coarse
    rw [← reachBelow_of_power power coarse]
    exact Nat.le_of_lt admitted.1

/-- **The point that is found rounds to the magnitude.** -/
theorem ofFraction_coarsestPoint (canonical : Magnitude.Canonical significand scale)
    (notZero : 0 < significand) (exponent : Nat) :
    Magnitude.ofFraction ((roundingInterval significand scale).coarsestPoint exponent)
      (10 ^ finestPlaces) = .finite significand scale := by
  have admitted := RoundingInterval.admits_coarsestPoint
    (exists_onGrid?_zero significand scale) exponent
  rw [Magnitude.ofFraction_eq]
  exact (rounds_of_admits admitted).ofUnits_eq (Nat.pow_pos (by decide)) canonical notZero

end Points

end Decimal

end FirstPaint
