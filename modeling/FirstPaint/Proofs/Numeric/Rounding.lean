import FirstPaint.Numeric.Magnitude
import Mathlib.Tactic.Linarith
import Mathlib.Tactic.Ring

/-!
# Rounding to magnitudes

The nearest whole number to a fraction is described without division (`Nearest`), and there is
one only (`Nearest.unique`). Rounding to a magnitude is rounding to a whole number of steps,
where the scale of the step is the one in which the fraction has 53 binary digits (`InScale`).

From this follow the three facts about a rounded fraction that matter elsewhere: its significand
and scale are those of a magnitude in normal form (`Canonical`), it is infinite from the middle
between the greatest magnitude and the next power of two on (`ofUnits_eq_infinite_iff`), and a
fraction near enough to a magnitude in normal form is rounded to it (`Rounds.ofUnits_eq`), even if
it lies so closely below a power of two that it is counted in smaller steps.
-/

set_option autoImplicit false

namespace FirstPaint

/-! ## Nearest whole numbers -/

/-- A whole number lies at most one half from the fraction, and is even if it is one half. -/
structure Nearest (numerator denominator whole : Nat) : Prop where
  above : 2 * numerator < (2 * whole + 1) * denominator ∨
    2 * numerator = (2 * whole + 1) * denominator ∧ whole % 2 = 0
  below : 2 * whole * denominator < 2 * numerator + denominator ∨
    2 * whole * denominator = 2 * numerator + denominator ∧ whole % 2 = 0

section Nearest

variable {numerator denominator whole other : Nat}

theorem nearest_divNearest (positive : 0 < denominator) (numerator : Nat) :
    Nearest numerator denominator (divNearest numerator denominator) := by
  have split := Nat.div_add_mod numerator denominator
  have rest := Nat.mod_lt numerator positive
  unfold divNearest
  generalize numerator / denominator = quotient at split
  generalize numerator % denominator = remainder at split rest
  have once : 2 * quotient * denominator = 2 * (denominator * quotient) := by ring
  have next : 2 * (quotient + 1) * denominator = 2 * (denominator * quotient) + 2 * denominator := by
    ring
  dsimp only
  constructor
  all_goals
    split
    · simp only [Nat.add_mul, once, one_mul]
      omega
    · split
      · simp only [Nat.add_mul, next, one_mul]
        omega
      · split
        · simp only [Nat.add_mul, once, one_mul]
          omega
        · simp only [Nat.add_mul, next, one_mul]
          omega

theorem Nearest.le (nearest : Nearest numerator denominator whole) :
    2 * numerator ≤ (2 * whole + 1) * denominator :=
  nearest.above.elim Nat.le_of_lt fun tie => Nat.le_of_eq tie.1

theorem Nearest.ge (nearest : Nearest numerator denominator whole) :
    2 * whole * denominator ≤ 2 * numerator + denominator :=
  nearest.below.elim Nat.le_of_lt fun tie => Nat.le_of_eq tie.1

/-- Two nearest numbers could differ by one only, and then both would be even. -/
theorem Nearest.le_of_nearest (positive : 0 < denominator)
    (nearest : Nearest numerator denominator whole)
    (another : Nearest numerator denominator other) : other ≤ whole := by
  by_contra greater
  have step : (2 * other) * denominator ≤ (2 * whole + 2) * denominator := by
    have upper := nearest.le
    have lower := another.ge
    have split : (2 * whole + 2) * denominator = (2 * whole + 1) * denominator + denominator := by
      ring
    omega
  have next : other = whole + 1 := by
    have close := Nat.le_of_mul_le_mul_right step positive
    omega
  have same : 2 * other * denominator = (2 * whole + 1) * denominator + denominator := by
    rw [next]
    ring
  have upper := nearest.above
  have lower := another.below
  omega

theorem Nearest.unique (positive : 0 < denominator)
    (nearest : Nearest numerator denominator whole)
    (another : Nearest numerator denominator other) : whole = other :=
  Nat.le_antisymm (another.le_of_nearest positive nearest)
    (nearest.le_of_nearest positive another)

theorem Nearest.divNearest_eq (positive : 0 < denominator)
    (nearest : Nearest numerator denominator whole) : divNearest numerator denominator = whole :=
  (nearest_divNearest positive numerator).unique positive nearest

theorem Nearest.scale (nearest : Nearest numerator denominator whole) {factor : Nat}
    (positive : 0 < factor) : Nearest (numerator * factor) (denominator * factor) whole where
  above := by
    have twice : 2 * (numerator * factor) = 2 * numerator * factor := by ring
    rw [twice, ← Nat.mul_assoc]
    exact nearest.above.imp (Nat.mul_lt_mul_of_pos_right · positive)
      fun tie => ⟨congrArg (· * factor) tie.1, tie.2⟩
  below := by
    have sum : 2 * (numerator * factor) + denominator * factor =
        (2 * numerator + denominator) * factor := by ring
    rw [sum, ← Nat.mul_assoc]
    exact nearest.below.imp (Nat.mul_lt_mul_of_pos_right · positive)
      fun tie => ⟨congrArg (· * factor) tie.1, tie.2⟩

end Nearest

namespace Magnitude

/-! ## Steps -/

/-- The scale in which a fraction has 53 binary digits; small fractions have scale zero. -/
structure InScale (units denominator scale : Nat) : Prop where
  low : scale = 0 ∨ 2 ^ 52 * (denominator * 2 ^ scale) ≤ units
  high : units < 2 ^ 53 * (denominator * 2 ^ scale)

/-- The magnitude nearest to a fraction that is counted in units. -/
def ofUnits (units denominator : Nat) : Magnitude :=
  let scale := Nat.log2 (units / denominator) - 52
  ofRounded (divNearest units (denominator * 2 ^ scale)) scale

theorem ofFraction_eq (numerator denominator : Nat) :
    ofFraction numerator denominator = ofUnits (numerator * unitsPerOne) denominator := rfl

section Steps

variable {units denominator scale : Nat}

theorem InScale.log2_eq (inScale : InScale units denominator scale) (positive : 0 < denominator) :
    Nat.log2 (units / denominator) - 52 = scale := by
  have high : units / denominator < 2 ^ (53 + scale) := by
    rw [Nat.div_lt_iff_lt_mul positive, Nat.pow_add, Nat.mul_right_comm, Nat.mul_assoc]
    exact inScale.high
  rcases inScale.low with rfl | low
  · by_cases zero : units / denominator = 0
    · rw [zero]
      rfl
    · have := (Nat.log2_lt zero).mpr high
      omega
  · have least : 2 ^ (52 + scale) ≤ units / denominator := by
      rw [Nat.le_div_iff_mul_le positive, Nat.pow_add, Nat.mul_right_comm, Nat.mul_assoc]
      exact low
    have notZero := Nat.ne_of_gt (Nat.lt_of_lt_of_le (Nat.two_pow_pos _) least)
    have same := (Nat.log2_eq_iff notZero).mpr ⟨least, by rwa [Nat.add_right_comm]⟩
    omega

theorem exists_inScale (positive : 0 < denominator) (units : Nat) :
    ∃ scale, InScale units denominator scale := by
  refine ⟨Nat.log2 (units / denominator) - 52, ?_, ?_⟩
  · by_cases small : Nat.log2 (units / denominator) ≤ 52
    · exact .inl (Nat.sub_eq_zero_of_le small)
    · right
      have zero : units / denominator ≠ 0 := by
        intro zero
        rw [zero] at small
        exact small (by decide)
      have least := Nat.log2_self_le zero
      rw [Nat.le_div_iff_mul_le positive] at least
      refine Nat.le_trans (Nat.le_of_eq ?_) least
      rw [Nat.mul_left_comm, ← Nat.pow_add, Nat.mul_comm]
      congr 2
      omega
  · have most : units / denominator < 2 ^ 53 * 2 ^ (Nat.log2 (units / denominator) - 52) := by
      rw [← Nat.pow_add]
      refine Nat.lt_of_lt_of_le Nat.lt_log2_self (Nat.pow_le_pow_right (by decide) ?_)
      omega
    rw [Nat.div_lt_iff_lt_mul positive, Nat.mul_right_comm, Nat.mul_assoc] at most
    exact most

/-- Rounding to a magnitude is rounding to a whole number of steps. -/
theorem InScale.ofUnits_eq (inScale : InScale units denominator scale) (positive : 0 < denominator) :
    ofUnits units denominator =
      ofRounded (divNearest units (denominator * 2 ^ scale)) scale := by
  unfold ofUnits
  rw [inScale.log2_eq positive]

/-- A fraction has at most 53 digits after rounding, unless it is rounded up to the next power of
two, and 53 of them where the scale is not zero. -/
theorem InScale.divNearest_bounds (inScale : InScale units denominator scale)
    (positive : 0 < denominator) :
    divNearest units (denominator * 2 ^ scale) ≤ 2 ^ 53 ∧
      (scale = 0 ∨ 2 ^ 52 ≤ divNearest units (denominator * 2 ^ scale)) := by
  have step : 0 < denominator * 2 ^ scale := Nat.mul_pos positive (Nat.two_pow_pos scale)
  have nearest := nearest_divNearest step units
  have high := inScale.high
  have low := inScale.low
  generalize denominator * 2 ^ scale = width at *
  generalize divNearest units width = rounded at *
  constructor
  · by_contra greater
    have twice : (2 * (2 ^ 53 + 1)) * width ≤ 2 * rounded * width :=
      Nat.mul_le_mul_right width (by omega)
    have upper := nearest.ge
    omega
  · refine low.imp_right fun low => ?_
    by_contra less
    have twice : (2 * rounded + 1) * width ≤ (2 * 2 ^ 52 - 1) * width :=
      Nat.mul_le_mul_right width (by omega)
    have lower := nearest.le
    omega

/-! ## Normal form -/

/-- The significands and scales of magnitudes: at most 53 binary digits, and exactly 53 if the
scale is not zero. -/
structure Canonical (significand scale : Nat) : Prop where
  short : significand < 2 ^ 53
  inRange : scale ≤ greatestScale
  normal : scale = 0 ∨ 2 ^ 52 ≤ significand

theorem significandBound_eq : significandBound = 2 ^ 53 := rfl

theorem canonical_of_ofRounded {rounded significand : Nat} {scale made : Nat}
    (short : rounded ≤ 2 ^ 53) (normal : scale = 0 ∨ 2 ^ 52 ≤ rounded)
    (same : ofRounded rounded scale = .finite significand made) : Canonical significand made := by
  unfold ofRounded at same
  rw [significandBound_eq] at same
  by_cases carry : rounded = 2 ^ 53
  · simp only [carry, if_true] at same
    split at same
    next => exact absurd same (by simp)
    next inRange =>
      cases same
      exact ⟨by decide, Nat.le_of_not_lt inRange, .inr (by decide)⟩
  · simp only [carry, if_false] at same
    split at same
    next => exact absurd same (by simp)
    next inRange =>
      cases same
      exact ⟨Nat.lt_of_le_of_ne short carry, Nat.le_of_not_lt inRange, normal⟩

/-- What a fraction is rounded to has normal form. -/
theorem canonical_of_ofUnits (positive : 0 < denominator) {significand : Nat}
    (same : ofUnits units denominator = .finite significand scale) :
    Canonical significand scale := by
  obtain ⟨step, inScale⟩ := exists_inScale positive units
  rw [inScale.ofUnits_eq positive] at same
  obtain ⟨short, normal⟩ := inScale.divNearest_bounds positive
  exact canonical_of_ofRounded short normal same

theorem ofRounded_eq_finite {significand : Nat} (canonical : Canonical significand scale) :
    ofRounded significand scale = .finite significand scale := by
  have noCarry : ¬ significand = significandBound := Nat.ne_of_lt canonical.short
  simp only [ofRounded, if_neg noCarry, if_neg (Nat.not_lt.mpr canonical.inRange)]

theorem ofRounded_eq_infinite_iff {rounded : Nat} : ofRounded rounded scale = .infinite ↔
    greatestScale < scale ∨ rounded = 2 ^ 53 ∧ scale = greatestScale := by
  unfold ofRounded
  rw [significandBound_eq]
  by_cases carry : rounded = 2 ^ 53
  · simp only [carry, if_true, true_and]
    split
    next beyond =>
      exact iff_of_true rfl
        ((Nat.lt_or_eq_of_le (Nat.le_of_lt_succ beyond)).imp_right Eq.symm)
    next inRange =>
      refine iff_of_false (by simp) fun reaches => inRange (Nat.lt_succ_of_le ?_)
      exact reaches.elim Nat.le_of_lt fun same => Nat.le_of_eq same.symm
  · simp only [carry, if_false, false_and, or_false]
    split
    next beyond => exact iff_of_true rfl beyond
    next inRange => exact iff_of_false (by simp) inRange

/-! ## The end of the range -/

/-- In units, the middle between the greatest magnitude and the next power of two. -/
def endOfRange : Nat := (2 ^ 54 - 1) * 2 ^ (greatestScale - 1)

/-- From the middle between the greatest magnitude and the next power of two on, fractions are
rounded to infinity. -/
theorem ofUnits_eq_infinite_iff (positive : 0 < denominator) :
    ofUnits units denominator = .infinite ↔ endOfRange * denominator ≤ units := by
  obtain ⟨scale, inScale⟩ := exists_inScale positive units
  have step : 0 < denominator * 2 ^ scale := Nat.mul_pos positive (Nat.two_pow_pos scale)
  -- Everything is compared in half steps of the greatest scale.
  obtain ⟨half, isHalf⟩ : ∃ half, greatestScale = half + 1 := ⟨2044, rfl⟩
  have range : endOfRange * denominator = (2 ^ 54 - 1) * (denominator * 2 ^ half) := by
    rw [endOfRange, isHalf, Nat.add_sub_cancel, Nat.mul_right_comm, Nat.mul_assoc]
  rw [inScale.ofUnits_eq positive, ofRounded_eq_infinite_iff, range, isHalf]
  have high := inScale.high
  rcases Nat.lt_trichotomy scale (half + 1) with below | rfl | beyond
  · refine iff_of_false (by omega) (Nat.not_le.mpr (Nat.lt_of_lt_of_le high ?_))
    have power := Nat.mul_le_mul_left denominator
      (Nat.pow_le_pow_right Nat.zero_lt_two (Nat.le_of_lt_succ below))
    exact Nat.mul_le_mul (by decide) power
  · have double : denominator * 2 ^ (half + 1) = 2 * (denominator * 2 ^ half) := by
      rw [Nat.pow_succ]
      ring
    rw [double] at high step ⊢
    generalize denominator * 2 ^ half = width at *
    simp only [Nat.lt_irrefl, false_or, and_true]
    constructor
    · intro carry
      have lower := (nearest_divNearest step units).ge
      rw [carry] at lower
      omega
    · intro reaches
      have lower : 2 * 2 ^ 53 * (2 * width) ≤ 2 * units + 2 * width := by omega
      refine Nearest.divNearest_eq step ⟨.inl (by omega), ?_⟩
      exact (Nat.lt_or_eq_of_le lower).imp_right fun tie => ⟨tie, rfl⟩
  · refine iff_of_true (.inl beyond) ?_
    have low := inScale.low.resolve_left (Nat.ne_zero_of_lt beyond)
    have power := Nat.mul_le_mul_left denominator
      (Nat.pow_le_pow_right Nat.zero_lt_two (Nat.succ_le_of_lt beyond))
    have quadruple : denominator * 2 ^ (half + 1).succ = 4 * (denominator * 2 ^ half) := by
      rw [Nat.succ_eq_add_one, Nat.pow_succ, Nat.pow_succ]
      ring
    omega

/-! ## Fractions near a magnitude -/

/-- The fraction is one of those that round to a magnitude: it lies at most half a step above, and
at most half a step below, where the steps below a power of two are half as wide. -/
structure Rounds (units denominator significand scale : Nat) : Prop where
  above : 4 * units < (4 * significand + 2) * (denominator * 2 ^ scale) ∨
    4 * units = (4 * significand + 2) * (denominator * 2 ^ scale) ∧ significand % 2 = 0
  below : (4 * significand - 2) * (denominator * 2 ^ scale) < 4 * units ∨
    (4 * significand - 2) * (denominator * 2 ^ scale) = 4 * units ∧ significand % 2 = 0
  narrow : significand = 2 ^ 52 → scale ≠ 0 →
    (4 * significand - 1) * (denominator * 2 ^ scale) ≤ 4 * units

theorem Rounds.nearest {significand : Nat} (rounds : Rounds units denominator significand scale)
    (notZero : 0 < significand) : Nearest units (denominator * 2 ^ scale) significand := by
  obtain ⟨above, below, -⟩ := rounds
  generalize denominator * 2 ^ scale = width at *
  have upper : (4 * significand + 2) * width = 2 * ((2 * significand + 1) * width) := by ring
  have lower : 2 * (2 * significand * width) = (4 * significand - 2) * width + 2 * width := by
    rw [← Nat.add_mul, Nat.sub_add_cancel (by omega)]
    ring
  constructor <;> omega

/-- Where a magnitude has the scale in which fractions near it have 53 digits, one rounds to it
as a whole number of its steps. -/
theorem Rounds.ofUnits_eq_of_low {significand : Nat}
    (rounds : Rounds units denominator significand scale) (positive : 0 < denominator)
    (canonical : Canonical significand scale) (notZero : 0 < significand)
    (low : scale = 0 ∨ 2 ^ 52 * (denominator * 2 ^ scale) ≤ units) :
    ofUnits units denominator = .finite significand scale := by
  have step : 0 < denominator * 2 ^ scale := Nat.mul_pos positive (Nat.two_pow_pos scale)
  have high : units < 2 ^ 53 * (denominator * 2 ^ scale) := by
    have short := canonical.short
    have most : (4 * significand + 2) * (denominator * 2 ^ scale) ≤
        (4 * 2 ^ 53 - 2) * (denominator * 2 ^ scale) := Nat.mul_le_mul_right _ (by omega)
    have upper := rounds.above
    omega
  rw [InScale.ofUnits_eq ⟨low, high⟩ positive, (rounds.nearest notZero).divNearest_eq step,
    ofRounded_eq_finite canonical]

/-- Below a power of two, a fraction that rounds to it is counted in steps half as wide, and is
rounded up. -/
theorem Rounds.ofUnits_eq_of_not_low {significand scale : Nat}
    (rounds : Rounds units denominator significand (scale + 1)) (positive : 0 < denominator)
    (canonical : Canonical significand (scale + 1))
    (less : units < 2 ^ 52 * (denominator * 2 ^ (scale + 1))) :
    ofUnits units denominator = .finite significand (scale + 1) := by
  have step : 0 < denominator * 2 ^ scale := Nat.mul_pos positive (Nat.two_pow_pos scale)
  have double : denominator * 2 ^ (scale + 1) = 2 * (denominator * 2 ^ scale) := by
    rw [Nat.pow_succ]
    ring
  obtain ⟨-, below, narrow⟩ := rounds
  have least := canonical.normal.resolve_left (Nat.succ_ne_zero scale)
  have power : significand = 2 ^ 52 := by
    by_contra different
    have more : (4 * 2 ^ 52 + 2) * (denominator * 2 ^ (scale + 1)) ≤
        (4 * significand - 2) * (denominator * 2 ^ (scale + 1)) :=
      Nat.mul_le_mul_right _ (by omega)
    omega
  have near := narrow power (Nat.succ_ne_zero scale)
  subst power
  rw [double] at near less
  have inScale : InScale units denominator scale := ⟨.inr (by omega), by omega⟩
  have carried : divNearest units (denominator * 2 ^ scale) = 2 ^ 53 := by
    have lower : 2 * 2 ^ 53 * (denominator * 2 ^ scale) ≤
        2 * units + denominator * 2 ^ scale := by omega
    refine Nearest.divNearest_eq step ⟨.inl (by omega), ?_⟩
    exact (Nat.lt_or_eq_of_le lower).imp_right fun tie => ⟨tie, rfl⟩
  rw [inScale.ofUnits_eq positive, carried]
  simp only [ofRounded, significandBound_eq, if_true, if_neg (Nat.not_lt.mpr canonical.inRange)]
  rfl

/-- **A fraction near enough to a magnitude in normal form is rounded to it.** -/
theorem Rounds.ofUnits_eq {significand : Nat}
    (rounds : Rounds units denominator significand scale) (positive : 0 < denominator)
    (canonical : Canonical significand scale) (notZero : 0 < significand) :
    ofUnits units denominator = .finite significand scale := by
  by_cases low : scale = 0 ∨ 2 ^ 52 * (denominator * 2 ^ scale) ≤ units
  · exact rounds.ofUnits_eq_of_low positive canonical notZero low
  · obtain ⟨notLeast, less⟩ := not_or.mp low
    obtain ⟨lower, rfl⟩ := Nat.exists_eq_add_one_of_ne_zero notLeast
    exact rounds.ofUnits_eq_of_not_low positive canonical (Nat.lt_of_not_le less)

end Steps

end Magnitude

end FirstPaint
