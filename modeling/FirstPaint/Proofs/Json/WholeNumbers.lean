import FirstPaint.Settings.Reader
import Mathlib.Tactic.SplitIfs

/-!
# Whole numbers of 64 bits

The reader keeps digits as long as their number fits into 64 bits, so it keeps all digits of a
number that fits (`keepWhole_eq`), and never a number that does not (`keepWhole_le`). From the
first follows that a number is read back from its digits (`readWhole_toDigits`), from the second
that whatever is read as a whole number fits (`yields_readWhole`), with all the ways in which a
number can be written.
-/

set_option autoImplicit false

namespace FirstPaint

namespace Json

/-! ## Keeping digits -/

section Keeping

variable {significand extended : Nat} {digit : Char}

theorem extend?_eq_some_iff : extend? significand digit = some extended ↔
    extended = 10 * significand + digitValue digit ∧ extended ≤ greatestWhole := by
  dsimp only [extend?]
  split_ifs with fits
  · rw [Option.some.injEq]
    exact ⟨fun same => ⟨same.symm, same ▸ fits⟩, fun ⟨same, _⟩ => same.symm⟩
  · refine ⟨fun none => absurd none (by simp), ?_⟩
    rintro ⟨rfl, fitting⟩
    exact absurd fitting fits

section

-- The equation is not found by evaluating whether the digit fits.
attribute [local irreducible] extend?

theorem keepWhole_cons (significand : Nat) (digit : Char) (rest : List Char) :
    keepWhole significand (digit :: rest) =
      match extend? significand digit with
      | some extended => keepWhole extended rest
      | none => ⟨significand, (digit :: rest).length⟩ := rfl

end

/-- Nothing is kept that does not fit. -/
theorem keepWhole_le (fits : significand ≤ greatestWhole) (digits : List Char) :
    (keepWhole significand digits).significand ≤ greatestWhole := by
  induction digits generalizing significand with
  | nil => exact fits
  | cons digit rest ih =>
      rw [keepWhole_cons]
      split
      next extended found => exact ih (extend?_eq_some_iff.mp found).2
      next => exact fits

theorem le_ofDigitChars (significand : Nat) (digits : List Char) :
    significand ≤ Nat.ofDigitChars 10 digits significand := by
  induction digits generalizing significand with
  | nil => exact Nat.le_refl _
  | cons digit rest ih =>
      rw [Nat.ofDigitChars_cons]
      exact Nat.le_trans (by omega) (ih _)

/-- All digits are kept if their number fits: the numbers on the way are not greater. -/
theorem keepWhole_eq {digits : List Char}
    (fits : Nat.ofDigitChars 10 digits significand ≤ greatestWhole) :
    keepWhole significand digits = ⟨Nat.ofDigitChars 10 digits significand, 0⟩ := by
  induction digits generalizing significand with
  | nil => rfl
  | cons digit rest ih =>
      rw [Nat.ofDigitChars_cons] at fits ⊢
      have kept : extend? significand digit = some (10 * significand + digitValue digit) :=
        extend?_eq_some_iff.mpr ⟨rfl, Nat.le_trans (le_ofDigitChars _ rest) fits⟩
      rw [keepWhole_cons, kept]
      exact ih fits

end Keeping

/-! ## Digits of a number -/

theorem digitChar_ne_zero : ∀ digit < 10, 0 < digit → Nat.digitChar digit ≠ '0' := by
  decide

/-- Only zero is written with a zero in front. -/
theorem toDigits_eq_cons {number : Nat} (positive : 0 < number) :
    ∃ first rest, Nat.toDigits 10 number = first :: rest ∧ first ≠ '0' := by
  induction number using Nat.strongRecOn with
  | ind number ih =>
      rw [Nat.toDigits_eq_if (by decide)]
      split_ifs with single
      · exact ⟨_, [], rfl, digitChar_ne_zero number single positive⟩
      · obtain ⟨first, rest, written, notZero⟩ :=
          ih (number / 10) (by omega) (by omega)
        exact ⟨first, rest ++ [Nat.digitChar (number % 10)], by rw [written]; rfl, notZero⟩

/-- The digits of a number that fits, up to a closing brace, are read as that number. -/
theorem readTail_toDigits {number : Nat} (fits : number ≤ greatestWhole) (rest : List Char) :
    readTail false (Nat.toDigits 10 number) ('}' :: rest) = .ok (.whole number, '}' :: rest) := by
  have value : Nat.ofDigitChars 10 (Nat.toDigits 10 number) 0 = number :=
    Nat.ofDigitChars_toDigits (by decide) (by decide)
  have kept : keepWhole 0 (Nat.toDigits 10 number) = ⟨number, 0⟩ := by
    rw [keepWhole_eq (value.symm ▸ fits), value]
  unfold readTail
  rw [kept]
  rfl

theorem isBlank_eq_false {character : Char} (isDigit : character.isDigit = true) :
    isBlank character = false := by
  simp only [isBlank, Bool.or_eq_false_iff, beq_eq_false_iff_ne]
  refine ⟨⟨⟨?_, ?_⟩, ?_⟩, ?_⟩ <;>
    (rintro rfl; exact absurd isDigit (by decide))

/-- Digits without a zero in front are read up to a closing brace. -/
theorem readNumber_digits {first : Char} {others : List Char}
    (isDigit : ∀ digit ∈ first :: others, digit.isDigit = true) (notZero : first ≠ '0')
    (rest : List Char) : readNumber (first :: others ++ '}' :: rest) =
      readTail false (first :: others) ('}' :: rest) := by
  have taken : (first :: others ++ '}' :: rest).takeWhile Char.isDigit = first :: others := by
    rw [List.takeWhile_append_of_pos isDigit, List.takeWhile_cons_of_neg (by decide),
      List.append_nil]
  have dropped : (first :: others ++ '}' :: rest).dropWhile Char.isDigit = '}' :: rest := by
    rw [List.dropWhile_append_of_pos isDigit, List.dropWhile_cons_of_neg (by decide)]
  have noSign : first ≠ '-' := by
    rintro rfl
    exact absurd (isDigit '-' List.mem_cons_self) (by decide)
  have unsigned : readUnsigned false (first :: others ++ '}' :: rest) =
      readTail false (first :: others) ('}' :: rest) := by
    rw [List.cons_append, readUnsigned, if_pos (isDigit first List.mem_cons_self),
      ← List.cons_append, taken, dropped]
    exact notZero
  rw [List.cons_append, readNumber]
  · exact unsigned
  · exact fun _ same => noSign (List.cons.inj same).1

/-- **A number that fits is read back from its digits.** -/
theorem readWhole_toDigits {number : Nat} (fits : number ≤ greatestWhole) (rest : List Char) :
    readWhole (Nat.toDigits 10 number ++ '}' :: rest) = .ok (number, '}' :: rest) := by
  have tail := readTail_toDigits fits rest
  rcases Nat.eq_zero_or_pos number with rfl | positive
  · rfl
  · obtain ⟨first, others, written, notZero⟩ := toDigits_eq_cons positive
    have isDigit : ∀ digit ∈ first :: others, digit.isDigit = true := by
      intro digit member
      exact Nat.isDigit_of_mem_toDigits (by decide) (by decide) (written ▸ member)
    rw [written] at tail ⊢
    have starts : startsNumber first = true := by
      rw [startsNumber, isDigit first List.mem_cons_self, Bool.or_true]
    have read := (readNumber_digits isDigit notZero rest).trans tail
    have solid : skipBlanks (first :: others ++ '}' :: rest) = first :: others ++ '}' :: rest := by
      rw [skipBlanks, List.cons_append, List.dropWhile_cons_of_neg]
      rw [isBlank_eq_false (isDigit first List.mem_cons_self)]
      exact Bool.false_ne_true
    rw [readWhole, solid, List.cons_append]
    simp only [starts, if_true, bind, Except.bind]
    rw [← List.cons_append, read]
    rfl

/-! ## What is read fits -/

/-- Whatever has been read has the property. -/
def Yields {α : Type} (property : α → Prop) (result : Except JsonFault (α × List Char)) : Prop :=
  ∀ value rest, result = .ok (value, rest) → property value

section Yields

variable {α β : Type} {property : α → Prop}

theorem yields_error {fault : JsonFault} : Yields property (.error fault) := by
  intro value rest same
  cases same

theorem yields_ok {value : α} {rest : List Char} (holds : property value) :
    Yields property (.ok (value, rest)) := by
  intro value rest same
  cases same
  exact holds

theorem yields_bind {result : Except JsonFault β} {next : β → Except JsonFault (α × List Char)}
    (yields : ∀ value, result = .ok value → Yields property (next value)) :
    Yields property (result >>= next) := by
  cases result with
  | error fault => exact yields_error
  | ok value => exact yields value rfl

end Yields

/-- A number that is kept as a whole one has at most 64 bits. -/
def Number.Fits : Number → Prop
  | .whole value => value ≤ greatestWhole
  | .negative _ | .real _ => True

theorem yields_finish (number : ScaledDigits) (text : List Char) :
    Yields Number.Fits (readExponent.finish number text) := by
  unfold readExponent.finish
  split
  next => exact yields_ok trivial
  next => exact yields_error

theorem yields_readExponent (number : ScaledDigits) (text : List Char) :
    Yields Number.Fits (readExponent number text) := by
  unfold readExponent
  dsimp only
  split
  next => exact yields_error
  next =>
    split
    next => exact yields_error
    next =>
      split
      next =>
        split_ifs
        · exact yields_ok trivial
        · exact yields_error
      next => exact yields_finish _ _

theorem yields_readTail (negative : Bool) (digits text : List Char) :
    Yields Number.Fits (readTail negative digits text) := by
  have kept := keepWhole_le (Nat.zero_le greatestWhole) digits
  unfold readTail
  generalize keepWhole 0 digits = number at kept ⊢
  dsimp only
  split
  next =>
    split
    next => exact yields_error
    next =>
      split
      next => exact yields_error
      next =>
        split
        next => exact yields_readExponent _ _
        next => exact yields_readExponent _ _
        next => exact yields_finish _ _
  next => exact yields_readExponent _ _
  next => exact yields_readExponent _ _
  next =>
    split_ifs
    · exact yields_finish _ _
    · exact yields_ok kept
    · exact yields_ok trivial
    · exact yields_ok trivial

theorem yields_readNumber (text : List Char) : Yields Number.Fits (readNumber text) := by
  have unsigned : ∀ negative text, Yields Number.Fits (readUnsigned negative text) := by
    intro negative text
    unfold readUnsigned
    split
    next => exact yields_error
    next =>
      split
      next =>
        split_ifs
        · exact yields_error
        · exact yields_readTail _ _ _
      next => exact yields_readTail _ _ _
    next =>
      split_ifs
      · exact yields_readTail _ _ _
      · exact yields_error
  unfold readNumber
  split
  next => exact unsigned _ _
  next => exact unsigned _ _

/-- **A whole number that has been read has at most 64 bits.** -/
theorem yields_readWhole (text : List Char) : Yields (· ≤ greatestWhole) (readWhole text) := by
  unfold readWhole
  split
  next => exact yields_error
  next first rest _ =>
    split_ifs
    · refine yields_bind fun read isRead => ?_
      have fits := yields_readNumber (first :: rest) read.1 read.2 isRead
      split
      next => exact yields_ok fits
      next => exact yields_error
    · exact yields_error

end Json

end FirstPaint
