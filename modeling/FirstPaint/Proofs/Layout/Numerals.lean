import FirstPaint.Layout.Length

/-!
# Numerals that are written

The grammar of measures is digits, perhaps a point with more digits, and the name of a unit
(`IsNumeral`, `IsMeasure`). Every finite magnitude is written as such a numeral: the shortest
notation is made of the digits of two whole numbers, filled up and cut off with zeros only
(`Decimal.isNumeral_shortest`). So a length is written as a measure or the keyword auto
exactly if it is one and, where it has a magnitude, that is finite
(`Length.isSizeValue_css_iff`).
-/

set_option autoImplicit false

namespace FirstPaint

/-- One decimal digit or more. -/
def IsDigits (text : List Char) : Prop := text ≠ [] ∧ ∀ character ∈ text, character.isDigit = true

/-- The grammar of numerals. -/
inductive IsNumeral : List Char → Prop where
  | whole {digits : List Char} (isDigits : IsDigits digits) : IsNumeral digits
  | point {digits fraction : List Char} (isDigits : IsDigits digits)
      (hasFraction : IsDigits fraction) : IsNumeral (digits ++ '.' :: fraction)

/-- The grammar of measures. -/
inductive IsMeasure : List Char → Prop where
  | intro {numeral : List Char} (isNumeral : IsNumeral numeral) (unit : MeasureUnit) :
      IsMeasure (numeral ++ unit.name.toList)

/-- What may be written as the size of an element: the keyword auto or a measure. -/
def IsSizeValue (text : List Char) : Prop := text = "auto".toList ∨ IsMeasure text

/-! ## Decimal notation -/

namespace Decimal

theorem isDigits_digits (number : Nat) : IsDigits (digits number) :=
  ⟨Nat.toDigits_ne_nil, fun _ member => Nat.isDigit_of_mem_toDigits (by decide) (by decide) member⟩

theorem isDigit_of_mem_paddedDigits {width number : Nat} {character : Char}
    (member : character ∈ paddedDigits width number) : character.isDigit = true := by
  rcases List.mem_append.mp member with zero | digit
  · rw [List.eq_of_mem_replicate zero]
    decide
  · exact (isDigits_digits number).2 character digit

theorem mem_of_mem_dropTrailingZeros {written : List Char} {character : Char}
    (member : character ∈ dropTrailingZeros written) : character ∈ written :=
  List.mem_reverse.mp (List.dropWhile_subset _ (List.mem_reverse.mp member))

/-- The shortest notation is a numeral. -/
theorem isNumeral_shortest (significand scale : Nat) : IsNumeral (shortest significand scale) := by
  unfold shortest
  split
  next => exact .whole (isDigits_digits 0)
  next =>
    dsimp only [positional]
    split
    next => exact .whole (isDigits_digits _)
    next _ nonempty =>
      refine .point (isDigits_digits _) ⟨nonempty, fun character member => ?_⟩
      exact isDigit_of_mem_paddedDigits (mem_of_mem_dropTrailingZeros member)

end Decimal

/-! ## Lengths -/

theorem IsNumeral.exists_cons {text : List Char} (isNumeral : IsNumeral text) :
    ∃ first rest, text = first :: rest ∧ first.isDigit = true := by
  have start : ∀ {digits : List Char}, IsDigits digits →
      ∃ first rest, digits = first :: rest ∧ first.isDigit = true := by
    rintro digits ⟨nonempty, all⟩
    obtain ⟨first, rest, rfl⟩ := List.exists_cons_of_ne_nil nonempty
    exact ⟨first, rest, rfl, all first List.mem_cons_self⟩
  cases isNumeral with
  | whole isDigits => exact start isDigits
  | @point digits fraction isDigits _ =>
      obtain ⟨first, rest, rfl, digit⟩ := start isDigits
      exact ⟨first, rest ++ '.' :: fraction, rfl, digit⟩

/-- A measure starts with a digit. -/
theorem IsMeasure.exists_cons {text : List Char} (isMeasure : IsMeasure text) :
    ∃ first rest, text = first :: rest ∧ first.isDigit = true := by
  obtain ⟨isNumeral, unit⟩ := isMeasure
  obtain ⟨first, rest, rfl, digit⟩ := isNumeral.exists_cons
  exact ⟨first, rest ++ unit.name.toList, rfl, digit⟩

theorem not_isMeasure_nil : ¬ IsMeasure [] := by
  intro isMeasure
  obtain ⟨first, rest, same, -⟩ := isMeasure.exists_cons
  exact absurd same (by simp)

theorem not_isMeasure_cons {first : Char} {rest : List Char} (noDigit : first.isDigit = false) :
    ¬ IsMeasure (first :: rest) := by
  intro isMeasure
  obtain ⟨_, _, same, digit⟩ := isMeasure.exists_cons
  cases same
  exact absurd (noDigit.symm.trans digit) (by simp)

/-- A length that can be written as a size: the keyword auto or a finite measure. -/
def Length.IsWritable : Length → Prop
  | .auto | .measure (.finite _ _) _ => True
  | .undefined | .fluid | .measure .infinite _ => False

theorem Length.isWritable_iff {length : Length} (notFluid : length ≠ .fluid) :
    length.IsWritable ↔ length ≠ .undefined ∧ length.numeral? ≠ some .infinite := by
  cases length with
  | undefined => simp [IsWritable]
  | auto => simp [IsWritable, numeral?]
  | fluid => exact absurd rfl notFluid
  | measure numeral unit => cases numeral <;> simp [IsWritable, numeral?]

theorem Length.isSizeValue_css_iff (length : Length) :
    IsSizeValue length.css.toList ↔ length.IsWritable := by
  cases length with
  | undefined => simp [IsSizeValue, css, IsWritable, not_isMeasure_nil]
  | auto => simp [IsSizeValue, css, IsWritable]
  | fluid =>
      have noMeasure : ¬ IsMeasure "fluid".toList := not_isMeasure_cons (by decide)
      simpa [IsSizeValue, css, IsWritable] using noMeasure
  | measure numeral unit =>
      simp only [css, String.toList_append, String.toList_ofList]
      cases numeral with
      | finite significand scale =>
          have isNumeral := Decimal.isNumeral_shortest significand scale
          simp only [IsWritable, iff_true]
          exact .inr (.intro isNumeral unit)
      | infinite =>
          have noMeasure : ¬ IsMeasure (Magnitude.infinite.toDecimal ++ unit.name.toList) :=
            not_isMeasure_cons (by decide)
          simpa [IsSizeValue, Magnitude.toDecimal, IsWritable] using noMeasure

end FirstPaint
