import FirstPaint.Proofs.Layout.LengthGrammar
import FirstPaint.Proofs.Numeric.Shortest

/-!
# Lengths that are printed and read again

A measure is printed with the shortest digits of its magnitude. If the numeral that it was read
from is a number below the end of the range, its magnitude is finite, the digits denote the
magnitude (`Decimal.denotes_shortest`), and the printed text is read as the same length again.

There is no last numeral in the grammar, but there is a last magnitude. From the middle between it
and the next power of two on, a numeral is read as infinity, which is printed as a word that is no
numeral (`Length.parse_css`). So not every length that has been read can be read again
(`Length.not_reread`).
-/

set_option autoImplicit false

namespace FirstPaint

/-! ## Numbers of numerals -/

/-- The numeral is written for the fraction `numerator / denominator`. -/
inductive Numerates : List Char → Nat → Nat → Prop where
  | whole {digits : List Char} (isDigits : IsDigits digits) :
      Numerates digits (Decimal.value digits) 1
  | point {digits fraction : List Char} (isDigits : IsDigits digits)
      (hasFraction : IsDigits fraction) :
      Numerates (digits ++ '.' :: fraction) (Decimal.value (digits ++ fraction))
        (10 ^ fraction.length)

/-- The middle between the greatest magnitude and the next power of two. -/
def Magnitude.endOfNumbers : Nat := 2 ^ 1024 - 2 ^ 970

section Numbers

variable {numeral : List Char} {magnitude : Magnitude} {numerator denominator : Nat}

theorem Numerates.positive (numerates : Numerates numeral numerator denominator) :
    0 < denominator := by
  cases numerates with
  | whole => decide
  | point => exact Nat.pow_pos (by decide)

theorem Numerates.denotes (numerates : Numerates numeral numerator denominator) :
    Denotes numeral (.ofFraction numerator denominator) := by
  cases numerates with
  | whole isDigits =>
      have denotes := Denotes.whole isDigits
      rwa [Magnitude.ofDecimal, List.append_nil] at denotes
  | point isDigits hasFraction => exact .point isDigits hasFraction

/-- What a numeral stands for is its number, rounded. -/
theorem denotes_iff_numerates : Denotes numeral magnitude ↔ ∃ numerator denominator,
    Numerates numeral numerator denominator ∧ magnitude = .ofFraction numerator denominator := by
  constructor
  · intro denotes
    cases denotes with
    | whole isDigits =>
        refine ⟨_, _, .whole isDigits, ?_⟩
        rw [Magnitude.ofDecimal, List.append_nil]
        rfl
    | point isDigits hasFraction => exact ⟨_, _, .point isDigits hasFraction, rfl⟩
  · rintro ⟨numerator, denominator, numerates, rfl⟩
    exact numerates.denotes

/-- A number is read as infinity from the end of the range on. -/
theorem Magnitude.ofFraction_eq_infinite_iff (positive : 0 < denominator) :
    ofFraction numerator denominator = .infinite ↔ endOfNumbers * denominator ≤ numerator := by
  have inUnits : endOfRange = endOfNumbers * unitsPerOne := by decide +kernel
  have units : 0 < unitsPerOne := by decide +kernel
  rw [ofFraction_eq, ofUnits_eq_infinite_iff positive, inUnits, Nat.mul_right_comm]
  exact Nat.mul_le_mul_right_iff units

end Numbers

/-- The shortest notation of a magnitude denotes it. -/
theorem Decimal.denotes_shortest {significand scale : Nat}
    (canonical : Magnitude.Canonical significand scale) :
    Denotes (shortest significand scale) (.finite significand scale) := by
  unfold shortest
  split
  next zero =>
    have noScale : scale = 0 := canonical.normal.resolve_right (by rw [zero]; decide)
    have read : Magnitude.ofDecimal (digits 0) [] = .finite 0 0 := by
      rw [Magnitude.ofDecimal, List.append_nil, value_digits, Magnitude.ofFraction_eq,
        Nat.zero_mul]
      rfl
    rw [zero, noScale, ← read]
    exact .whole (isDigits_digits 0)
  next notZero =>
    have read := ofFraction_coarsestPoint canonical (Nat.pos_of_ne_zero notZero) coarsestExponent
    rw [← ofDecimal_positional (by decide)] at read
    generalize (roundingInterval significand scale).coarsestPoint coarsestExponent = point at *
    have isDigits := isDigits_digits (point / Nat.pow 10 finestPlaces)
    dsimp only [positional] at read ⊢
    split
    next none =>
      rw [none] at read
      exact read ▸ .whole isDigits
    next _ nonempty =>
      refine read ▸ .point isDigits ⟨nonempty, fun character member => ?_⟩
      exact isDigit_of_mem_paddedDigits (mem_of_mem_dropTrailingZeros member)

/-! ## Printing and reading again -/

namespace Length

variable {value? : Option String} {autoAllowed fluidAllowed : Bool} {magnitude : Magnitude}
  {unit : MeasureUnit}

theorem toList_css_measure : (css (.measure magnitude unit)).toList =
    magnitude.toDecimal ++ unit.name.toList := by
  rw [css, String.toList_append, String.toList_ofList]

/-- A finite measure is printed as a text that stands for it. -/
theorem parse_css_finite {significand scale : Nat}
    (canonical : Magnitude.Canonical significand scale) (unit : MeasureUnit) :
    parse (some (css (.measure (.finite significand scale) unit))) autoAllowed fluidAllowed =
      .ok (.measure (.finite significand scale) unit) := by
  refine parse_eq_ok_iff.mpr (.measure ?_)
  rw [toList_css_measure]
  exact .intro (Decimal.denotes_shortest canonical) (.named unit)

/-- An infinite measure is printed as a text that no length is read from. -/
theorem parse_css_infinite (unit : MeasureUnit) :
    parse (some (css (.measure .infinite unit))) autoAllowed fluidAllowed =
      .error (.malformed (css (.measure .infinite unit))) := by
  have text : (css (.measure .infinite unit)).toList = 'i' :: 'n' :: 'f' :: unit.name.toList :=
    toList_css_measure
  refine parse_eq_error_iff.mpr (.malformed ?_ fun magnitude other measures => ?_)
  · intro keyword
    have noKeyword : ∀ keyword ∈ ["", "auto", "fluid"], keyword.toList.head? ≠ some 'i' := by
      decide
    exact noKeyword _ keyword (by rw [text]; rfl)
  · rw [text] at measures
    generalize same : 'i' :: 'n' :: 'f' :: unit.name.toList = characters at measures
    obtain ⟨denotes, -⟩ := measures
    obtain ⟨first, rest, rfl, digit⟩ := (isNumeral_iff.mpr ⟨_, denotes⟩).exists_cons
    obtain ⟨rfl, -⟩ := List.cons.inj same
    exact absurd digit (by decide)

/-- What becomes of a measure that was read from a numeral for the given number, when it is
printed and read again. -/
inductive Reread (numerator denominator : Nat) (magnitude : Magnitude) (unit : MeasureUnit) :
    Except LengthError Length → Prop where
  | same (inRange : numerator < Magnitude.endOfNumbers * denominator) :
      Reread numerator denominator magnitude unit (.ok (.measure magnitude unit))
  | refused (beyond : Magnitude.endOfNumbers * denominator ≤ numerator)
      (infinite : magnitude = .infinite) : Reread numerator denominator magnitude unit
        (.error (.malformed (css (.measure .infinite unit))))

/-- **A measure is read again from its printed form exactly if the number it was read from is
below the end of the range.** It is the same measure then; otherwise the printed form is the word
for infinity with a unit, which is no length, whatever keywords are allowed. -/
theorem parse_css (read : parse value? autoAllowed fluidAllowed = .ok (.measure magnitude unit)) :
    ∃ text numeral suffix numerator denominator, value? = some text ∧
      text.toList = numeral ++ suffix ∧ unit.HasSuffix suffix ∧
      Numerates numeral numerator denominator ∧
      ∀ autoAllowed fluidAllowed, Reread numerator denominator magnitude unit
        (parse (some (css (.measure magnitude unit))) autoAllowed fluidAllowed) := by
  cases parse_eq_ok_iff.mp read with
  | @measure text _ _ measures =>
      generalize isText : text.toList = characters at measures
      obtain ⟨denotes, ends⟩ := measures
      obtain ⟨numerator, denominator, numerates, rfl⟩ := denotes_iff_numerates.mp denotes
      refine ⟨text, _, _, numerator, denominator, rfl, isText, ends, numerates, fun _ _ => ?_⟩
      have infinite : Magnitude.ofFraction numerator denominator = .infinite ↔
          Magnitude.endOfNumbers * denominator ≤ numerator :=
        Magnitude.ofFraction_eq_infinite_iff numerates.positive
      cases rounded : Magnitude.ofFraction numerator denominator with
      | finite significand scale =>
          rw [rounded] at infinite
          rw [parse_css_finite (Magnitude.canonical_of_ofUnits numerates.positive rounded)]
          exact .same (Nat.lt_of_not_le fun beyond => by simpa using infinite.mpr beyond)
      | infinite =>
          rw [parse_css_infinite]
          exact .refused (infinite.mp rounded) rfl

/-- A numeral with a zero at its end, which is not printed. -/
theorem parse_css_decimal :
    let length : Length := .measure (.finite 6755399441055744 1022) .em
    parse (some "1.50em") false false = .ok length ∧
      parse (some (css length)) true true = .ok length := by
  intro length
  have read : parse (some "1.50em") false false = .ok length := by decide +kernel
  obtain ⟨_, _, _, _, _, -, -, -, -, again⟩ := parse_css read
  refine ⟨read, ?_⟩
  have reread := again true true
  generalize parse (some (css length)) true true = result at reread ⊢
  cases reread with
  | same => rfl
  | refused _ infinite => exact absurd infinite (by simp)

/-- A one with 309 zeros is read as a length, but not the text that is printed for this length. -/
theorem not_reread :
    ¬ ∀ (value? : Option String) (autoAllowed fluidAllowed : Bool) (magnitude : Magnitude)
        (unit : MeasureUnit),
      parse value? autoAllowed fluidAllowed = .ok (.measure magnitude unit) →
        ∃ other, parse (some (css (.measure magnitude unit))) autoAllowed fluidAllowed =
          .ok (.measure other unit) := by
  intro claim
  have isDigits : IsDigits ('1' :: List.replicate 309 '0') := by
    refine ⟨List.cons_ne_nil _ _, fun digit member => ?_⟩
    rcases List.mem_cons.mp member with rfl | zero
    · decide
    · rw [List.eq_of_mem_replicate zero]
      decide
  have beyond : Magnitude.ofDecimal ('1' :: List.replicate 309 '0') [] = .infinite := by
    decide +kernel
  have measures : Measures ('1' :: List.replicate 309 '0' ++ []) .infinite .px :=
    .intro (beyond ▸ .whole isDigits) .bare
  rw [List.append_nil, ← String.toList_ofList (l := _ :: _)] at measures
  obtain ⟨other, again⟩ :=
    claim _ false false .infinite .px (parse_eq_ok_iff.mpr (.measure measures))
  rw [parse_css_infinite] at again
  exact absurd again (by simp)

end Length

end FirstPaint
