import FirstPaint.Proofs.Layout.Numerals

/-!
# Lengths that are read

The value of a size attribute stands for a length in the cases of `Length.Reading`: it is absent
or empty, it is a keyword that has a meaning at its place, or it is a numeral with the name of a
unit, which may be missing for pixels. All other values are refused, for the reason that
`Length.Refusal` states. The reader knows exactly these cases (`Length.parse_grammar`).

It takes as many digits as it finds and looks for the unit behind them. That this is where a
numeral of the grammar ends is due to the names of the units: none of them starts with a digit or
a point (`Length.readNumeral?_append`).
-/

set_option autoImplicit false

namespace FirstPaint

/-! ## The grammar -/

/-- The numeral stands for the magnitude. -/
inductive Denotes : List Char → Magnitude → Prop where
  | whole {digits : List Char} (isDigits : IsDigits digits) :
      Denotes digits (Magnitude.ofDecimal digits [])
  | point {digits fraction : List Char} (isDigits : IsDigits digits)
      (hasFraction : IsDigits fraction) :
      Denotes (digits ++ '.' :: fraction) (Magnitude.ofDecimal digits fraction)

/-- What stands behind a numeral in the given unit: its name, or nothing for pixels. -/
inductive MeasureUnit.HasSuffix : MeasureUnit → List Char → Prop where
  | named (unit : MeasureUnit) : HasSuffix unit unit.name.toList
  | bare : HasSuffix .px []

namespace Length

/-- The whole text is a numeral in a unit. -/
inductive Measures : List Char → Magnitude → MeasureUnit → Prop where
  | intro {numeral suffix : List Char} {magnitude : Magnitude} {unit : MeasureUnit}
      (denotes : Denotes numeral magnitude) (ends : unit.HasSuffix suffix) :
      Measures (numeral ++ suffix) magnitude unit

/-- The length that the value of an attribute stands for, if the keywords are allowed under the
given conditions. -/
inductive Reading (autoAllowed fluidAllowed : Prop) : Option String → Length → Prop where
  | absent : Reading autoAllowed fluidAllowed none .undefined
  | empty : Reading autoAllowed fluidAllowed (some "") .undefined
  | auto (allowed : autoAllowed) : Reading autoAllowed fluidAllowed (some "auto") .auto
  | fluid (allowed : fluidAllowed) : Reading autoAllowed fluidAllowed (some "fluid") .fluid
  | measure {text : String} {magnitude : Magnitude} {unit : MeasureUnit}
      (measures : Measures text.toList magnitude unit) :
      Reading autoAllowed fluidAllowed (some text) (.measure magnitude unit)

/-- Why the value of an attribute stands for no length. -/
inductive Refusal (autoAllowed fluidAllowed : Prop) : Option String → LengthError → Prop where
  | auto (refused : ¬ autoAllowed) :
      Refusal autoAllowed fluidAllowed (some "auto") .autoNotAllowed
  | fluid (refused : ¬ fluidAllowed) :
      Refusal autoAllowed fluidAllowed (some "fluid") .fluidNotAllowed
  | malformed {text : String} (noKeyword : text ∉ ["", "auto", "fluid"])
      (noMeasure : ∀ magnitude unit, ¬ Measures text.toList magnitude unit) :
      Refusal autoAllowed fluidAllowed (some text) (.malformed text)

end Length

/-! ## Numerals and units -/

section Numerals

variable {text digits numeral rest suffix : List Char} {magnitude : Magnitude} {unit : MeasureUnit}

theorem isNumeral_iff : IsNumeral text ↔ ∃ magnitude, Denotes text magnitude := by
  constructor
  · rintro (isDigits | ⟨isDigits, hasFraction⟩)
    · exact ⟨_, .whole isDigits⟩
    · exact ⟨_, .point isDigits hasFraction⟩
  · rintro ⟨_, isDigits | ⟨isDigits, hasFraction⟩⟩
    · exact .whole isDigits
    · exact .point isDigits hasFraction

/-- Digits are told apart from what follows if that does not start with one. -/
theorem IsDigits.span (isDigits : IsDigits digits)
    (stops : ∀ character ∈ rest.head?, character.isDigit = false) :
    (digits ++ rest).takeWhile Char.isDigit = digits ∧
      (digits ++ rest).dropWhile Char.isDigit = rest := by
  rw [List.takeWhile_append_of_pos isDigits.2, List.dropWhile_append_of_pos isDigits.2]
  cases rest with
  | nil => simp
  | cons first others =>
      have noDigit : first.isDigit = false := stops first rfl
      simp [noDigit]

theorem isDigits_takeWhile (nonempty : (text.takeWhile Char.isDigit).isEmpty = false) :
    IsDigits (text.takeWhile Char.isDigit) :=
  ⟨List.isEmpty_eq_false_iff.mp nonempty, List.all_eq_true.mp List.all_takeWhile⟩

namespace Length

/-- A numeral is read up to its end. -/
theorem readNumeral?_append (denotes : Denotes numeral magnitude)
    (stops : ∀ character ∈ suffix.head?, character.isDigit = false ∧ character ≠ '.') :
    readNumeral? (numeral ++ suffix) = some (magnitude, suffix) := by
  have noDigit : ∀ character ∈ suffix.head?, character.isDigit = false :=
    fun character first => (stops character first).1
  cases denotes with
  | whole isDigits =>
      obtain ⟨taken, dropped⟩ := isDigits.span noDigit
      unfold readNumeral?
      dsimp only
      rw [taken, dropped, if_neg (by simpa using isDigits.1)]
      split
      next rest => exact absurd rfl (stops '.' rfl).2
      next => rfl
  | @point digits fraction isDigits hasFraction =>
      have point : ∀ character ∈ ('.' :: (fraction ++ suffix)).head?,
          character.isDigit = false := by
        simp
      obtain ⟨taken, dropped⟩ := isDigits.span point
      obtain ⟨takenBehind, droppedBehind⟩ := hasFraction.span noDigit
      rw [List.append_assoc, List.cons_append]
      unfold readNumeral?
      dsimp only
      rw [taken, dropped, if_neg (by simpa using isDigits.1)]
      simp only [takenBehind, droppedBehind]
      exact if_neg (by simpa using hasFraction.1)

/-- What is read is a numeral at the start of the text. -/
theorem exists_of_readNumeral? (read : readNumeral? text = some (magnitude, rest)) :
    ∃ numeral, Denotes numeral magnitude ∧ text = numeral ++ rest := by
  have split := List.takeWhile_append_dropWhile (p := Char.isDigit) (l := text)
  unfold readNumeral? at read
  dsimp only at read
  split at read
  next => exact absurd read (by simp)
  next nonempty =>
    have isDigits := isDigits_takeWhile (by simpa using nonempty)
    split at read
    next behind found =>
      split at read
      next => exact absurd read (by simp)
      next filled =>
        cases read
        refine ⟨_, .point isDigits (isDigits_takeWhile (by simpa using filled)), ?_⟩
        rw [List.append_assoc, List.cons_append, List.takeWhile_append_dropWhile, ← found, split]
    next behind _ =>
      cases read
      exact ⟨_, .whole isDigits, split.symm⟩

end Length

namespace MeasureUnit

theorem ofSuffix?_eq_some_iff : ofSuffix? suffix = some unit ↔ unit.HasSuffix suffix := by
  constructor
  · intro found
    unfold ofSuffix? at found
    split at found
    next isEmpty =>
      cases found
      rw [List.isEmpty_iff.mp isEmpty]
      exact .bare
    next =>
      have same : unit.name.toList = suffix := by simpa using List.find?_some found
      exact same ▸ .named unit
  · rintro (_ | _)
    · cases unit <;> decide
    · rfl

/-- A unit starts with a letter, where it starts with anything. -/
theorem HasSuffix.stops (ends : unit.HasSuffix suffix) :
    ∀ character ∈ suffix.head?, character.isDigit = false ∧ character ≠ '.' := by
  cases ends with
  | named =>
      have letter : unit.name.toList.head?.all
          (fun character => !character.isDigit && character != '.') = true := by
        cases unit <;> decide
      simpa [Option.all_eq_true] using letter
  | bare => simp

end MeasureUnit

end Numerals

/-! ## Values -/

namespace Length

section Values

variable {autoAllowed fluidAllowed : Bool} {value? : Option String} {text : String}
  {length : Length} {reason : LengthError}

theorem readMeasure?_eq_some_iff {text : List Char} : readMeasure? text = some length ↔
    ∃ magnitude unit, length = .measure magnitude unit ∧ Measures text magnitude unit := by
  constructor
  · intro read
    obtain ⟨⟨magnitude, suffix⟩, start, read⟩ := Option.bind_eq_some_iff.mp read
    obtain ⟨unit, isUnit, made⟩ := Option.bind_eq_some_iff.mp read
    obtain ⟨numeral, denotes, rfl⟩ := exists_of_readNumeral? start
    exact ⟨magnitude, unit, (Option.some.inj made).symm,
      .intro denotes (MeasureUnit.ofSuffix?_eq_some_iff.mp isUnit)⟩
  · rintro ⟨magnitude, unit, rfl, ⟨denotes, ends⟩⟩
    simp only [readMeasure?, readNumeral?_append denotes ends.stops,
      MeasureUnit.ofSuffix?_eq_some_iff.mpr ends, Option.bind_eq_bind, Option.bind_some]
    rfl

theorem readMeasure?_eq_none_iff {text : List Char} :
    readMeasure? text = none ↔ ∀ magnitude unit, ¬ Measures text magnitude unit := by
  rw [Option.eq_none_iff_forall_not_mem]
  simp only [Option.mem_def, readMeasure?_eq_some_iff]
  constructor
  · exact fun none magnitude unit measures => none _ ⟨magnitude, unit, rfl, measures⟩
  · rintro none _ ⟨magnitude, unit, rfl, measures⟩
    exact none magnitude unit measures

/-- A measure starts with a digit, which no keyword does. -/
theorem Measures.noKeyword {magnitude : Magnitude} {unit : MeasureUnit}
    (measures : Measures text.toList magnitude unit) : text ∉ ["", "auto", "fluid"] := by
  have noDigit : ∀ keyword ∈ ["", "auto", "fluid"],
      keyword.toList.head?.all (fun character => !character.isDigit) = true := by
    decide
  generalize same : text.toList = characters at measures
  obtain ⟨denotes, -⟩ := measures
  obtain ⟨first, rest, rfl, digit⟩ := (isNumeral_iff.mpr ⟨_, denotes⟩).exists_cons
  intro keyword
  have letter := noDigit text keyword
  rw [same, List.cons_append, List.head?_cons, Option.all_some, digit] at letter
  exact absurd letter (by simp)

theorem parse_of_noKeyword (noKeyword : text ∉ ["", "auto", "fluid"]) :
    parse (some text) autoAllowed fluidAllowed =
      match readMeasure? text.toList with
      | some length => .ok length
      | none => .error (.malformed text) := by
  simp only [List.mem_cons, List.not_mem_nil, or_false, not_or] at noKeyword
  obtain ⟨notEmpty, noAuto, noFluid⟩ := noKeyword
  unfold parse
  rw [Option.getD_some]
  split
  next => exact absurd rfl notEmpty
  next => exact absurd rfl noAuto
  next => exact absurd rfl noFluid
  next => rfl

theorem parse_of_reading
    (reading : Reading (autoAllowed = true) (fluidAllowed = true) value? length) :
    parse value? autoAllowed fluidAllowed = .ok length := by
  cases reading with
  | absent => rfl
  | empty => rfl
  | auto allowed => simp [parse, allowed]
  | fluid allowed => simp [parse, allowed]
  | measure measures =>
      rw [parse_of_noKeyword measures.noKeyword,
        readMeasure?_eq_some_iff.mpr ⟨_, _, rfl, measures⟩]

theorem parse_of_refusal
    (refusal : Refusal (autoAllowed = true) (fluidAllowed = true) value? reason) :
    parse value? autoAllowed fluidAllowed = .error reason := by
  cases refusal with
  | auto refused => simp [parse, refused]
  | fluid refused => simp [parse, refused]
  | malformed noKeyword noMeasure =>
      rw [parse_of_noKeyword noKeyword, readMeasure?_eq_none_iff.mpr noMeasure]

/-- Every value stands for a length or is refused. -/
theorem exists_reading_or_refusal (value? : Option String) (autoAllowed fluidAllowed : Prop) :
    (∃ length, Reading autoAllowed fluidAllowed value? length) ∨
      ∃ reason, Refusal autoAllowed fluidAllowed value? reason := by
  cases value? with
  | none => exact .inl ⟨_, .absent⟩
  | some text =>
      by_cases keyword : text ∈ ["", "auto", "fluid"]
      · simp only [List.mem_cons, List.not_mem_nil, or_false] at keyword
        rcases keyword with rfl | rfl | rfl
        · exact .inl ⟨_, .empty⟩
        · by_cases allowed : autoAllowed
          · exact .inl ⟨_, .auto allowed⟩
          · exact .inr ⟨_, .auto allowed⟩
        · by_cases allowed : fluidAllowed
          · exact .inl ⟨_, .fluid allowed⟩
          · exact .inr ⟨_, .fluid allowed⟩
      · by_cases measured : ∃ magnitude unit, Measures text.toList magnitude unit
        · obtain ⟨magnitude, unit, measures⟩ := measured
          exact .inl ⟨_, .measure measures⟩
        · refine .inr ⟨_, .malformed keyword fun magnitude unit measures => measured ?_⟩
          exact ⟨magnitude, unit, measures⟩

theorem parse_eq_ok_iff : parse value? autoAllowed fluidAllowed = .ok length ↔
    Reading (autoAllowed = true) (fluidAllowed = true) value? length := by
  refine ⟨fun read => ?_, parse_of_reading⟩
  rcases exists_reading_or_refusal value? (autoAllowed = true) (fluidAllowed = true) with
    ⟨other, reading⟩ | ⟨reason, refusal⟩
  · rw [parse_of_reading reading] at read
    cases read
    exact reading
  · rw [parse_of_refusal refusal] at read
    cases read

theorem parse_eq_error_iff : parse value? autoAllowed fluidAllowed = .error reason ↔
    Refusal (autoAllowed = true) (fluidAllowed = true) value? reason := by
  refine ⟨fun refused => ?_, parse_of_refusal⟩
  rcases exists_reading_or_refusal value? (autoAllowed = true) (fluidAllowed = true) with
    ⟨length, reading⟩ | ⟨other, refusal⟩
  · rw [parse_of_reading reading] at refused
    cases refused
  · rw [parse_of_refusal refusal] at refused
    cases refused
    exact refusal

/-- A value stands for one length. -/
theorem Reading.unique {autoAllowed fluidAllowed : Prop} {other : Length}
    (reading : Reading autoAllowed fluidAllowed value? length)
    (again : Reading autoAllowed fluidAllowed value? other) : length = other := by
  -- The conditions are decided here, since the reader takes flags.
  classical
  have read : parse value? (decide autoAllowed) (decide fluidAllowed) = .ok length :=
    parse_eq_ok_iff.mpr (by simpa using reading)
  have readAgain : parse value? (decide autoAllowed) (decide fluidAllowed) = .ok other :=
    parse_eq_ok_iff.mpr (by simpa using again)
  exact Except.ok.inj (read.symm.trans readAgain)

/-- A value that is refused stands for no length. -/
theorem Refusal.not_reading {autoAllowed fluidAllowed : Prop}
    (refusal : Refusal autoAllowed fluidAllowed value? reason) :
    ¬ Reading autoAllowed fluidAllowed value? length := by
  classical
  intro reading
  have refused : parse value? (decide autoAllowed) (decide fluidAllowed) = .error reason :=
    parse_eq_error_iff.mpr (by simpa using refusal)
  have read : parse value? (decide autoAllowed) (decide fluidAllowed) = .ok length :=
    parse_eq_ok_iff.mpr (by simpa using reading)
  exact absurd (refused.symm.trans read) (by simp)

end Values

/-- What the reader makes of the value of an attribute. -/
structure Grammar (value? : Option String) (autoAllowed fluidAllowed : Bool)
    (result : Except LengthError Length) : Prop where
  undefined : result = .ok .undefined ↔ value? = none ∨ value? = some ""
  auto : result = .ok .auto ↔ value? = some "auto" ∧ autoAllowed = true
  fluid : result = .ok .fluid ↔ value? = some "fluid" ∧ fluidAllowed = true
  measure : ∀ magnitude unit, result = .ok (.measure magnitude unit) ↔
    ∃ text, value? = some text ∧ Measures text.toList magnitude unit
  autoNotAllowed : result = .error .autoNotAllowed ↔ value? = some "auto" ∧ autoAllowed = false
  fluidNotAllowed :
    result = .error .fluidNotAllowed ↔ value? = some "fluid" ∧ fluidAllowed = false
  malformed : ∀ text, result = .error (.malformed text) ↔ value? = some text ∧
    text ∉ ["", "auto", "fluid"] ∧ ∀ magnitude unit, ¬ Measures text.toList magnitude unit

/-- **The reader accepts its grammar.** Each length is read from the values that stand for it and
from no others, and each reason for a refusal is given for the values that it is about. -/
theorem parse_grammar (value? : Option String) (autoAllowed fluidAllowed : Bool) :
    Grammar value? autoAllowed fluidAllowed (parse value? autoAllowed fluidAllowed) where
  undefined := by
    rw [parse_eq_ok_iff]
    constructor
    · intro reading
      cases reading with
      | absent => exact .inl rfl
      | empty => exact .inr rfl
    · rintro (rfl | rfl)
      · exact .absent
      · exact .empty
  auto := by
    rw [parse_eq_ok_iff]
    constructor
    · intro reading
      cases reading with
      | auto allowed => exact ⟨rfl, allowed⟩
    · rintro ⟨rfl, allowed⟩
      exact .auto allowed
  fluid := by
    rw [parse_eq_ok_iff]
    constructor
    · intro reading
      cases reading with
      | fluid allowed => exact ⟨rfl, allowed⟩
    · rintro ⟨rfl, allowed⟩
      exact .fluid allowed
  measure magnitude unit := by
    rw [parse_eq_ok_iff]
    constructor
    · intro reading
      cases reading with
      | measure measures => exact ⟨_, rfl, measures⟩
    · rintro ⟨text, rfl, measures⟩
      exact .measure measures
  autoNotAllowed := by
    rw [parse_eq_error_iff, ← Bool.not_eq_true]
    constructor
    · intro refusal
      cases refusal with
      | auto refused => exact ⟨rfl, refused⟩
    · rintro ⟨rfl, refused⟩
      exact .auto refused
  fluidNotAllowed := by
    rw [parse_eq_error_iff, ← Bool.not_eq_true]
    constructor
    · intro refusal
      cases refusal with
      | fluid refused => exact ⟨rfl, refused⟩
    · rintro ⟨rfl, refused⟩
      exact .fluid refused
  malformed text := by
    rw [parse_eq_error_iff]
    constructor
    · intro refusal
      cases refusal with
      | malformed noKeyword noMeasure => exact ⟨rfl, noKeyword, noMeasure⟩
    · rintro ⟨rfl, noKeyword, noMeasure⟩
      exact .malformed noKeyword noMeasure

end Length

end FirstPaint
