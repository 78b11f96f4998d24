import FirstPaint.Json.Quote
import FirstPaint.Json.Token
import Mathlib.Tactic.SplitIfs

/-!
# String literals give back their texts

A reader takes a written form for a value if it takes just that form off the front, whatever
stands behind it, and has the value then (`Takes`). So a form that a reader takes ends where it
says itself: with two such forms in front of two texts, equal wholes have equal values and equal
rests (`Takes.append_inj`).

The literal of a text is such a form behind its opening mark (`takes_quoteTail`). Each character
is written as an escape or as itself, and the reader knows which from the first character that it
meets (`readCharacters_quoteChar`).
-/

set_option autoImplicit false

namespace FirstPaint

namespace Json

/-- The reader takes the form off the front of whatever follows it, for the given value. -/
def Takes {α : Type} (reader : JsonReader α) (form : List Char) (value : α) : Prop :=
  ∀ rest, reader (form ++ rest) = .ok (value, rest)

/-- Forms that a reader takes are told from what stands behind them. -/
theorem Takes.append_inj {α : Type} {reader : JsonReader α} {left right rest others : List Char}
    {first second : α} (takes : Takes reader left first) (takesOther : Takes reader right second)
    (same : left ++ rest = right ++ others) : first = second ∧ rest = others := by
  have read : (.ok (first, rest) : Except JsonFault (α × List Char)) = .ok (second, others) := by
    rw [← takes rest, same, takesOther others]
  exact Prod.ext_iff.mp (Except.ok.inj read)

/-! ## Escapes -/

section Escapes

variable {character : Char}

theorem length_le_byteCount (text : List Char) : text.length ≤ byteCount text := by
  induction text with
  | nil => exact Nat.le_refl 0
  | cons first rest ih =>
      have one := first.utf8Size_pos
      simp only [byteCount, List.map_cons, List.foldr_cons, List.length_cons] at ih ⊢
      omega

theorem hexValue?_digitChar :
    ∀ digit < 16, hexValue? (Nat.digitChar digit) = some digit := by
  decide

/-- The digits of a control character are those of its code. -/
theorem takes_controlDigits (control : character.toNat < 32) :
    Takes readHex (controlDigits character) character.toNat := by
  intro rest
  have enough : ¬ byteCount ((controlDigits character ++ rest).take 4) < 4 :=
    Nat.not_lt.mpr (length_le_byteCount (controlDigits character))
  have zero : hexValue? '0' = some 0 := rfl
  have high := hexValue?_digitChar (character.toNat / 16) (by omega)
  have low := hexValue?_digitChar (character.toNat % 16) (by omega)
  unfold readHex
  rw [if_neg enough]
  simp only [controlDigits, List.cons_append, List.nil_append, zero, high, low]
  congr 2
  omega

/-- A code below those that come in pairs stands for one character. -/
theorem takes_readCode (control : character.toNat < 32) :
    Takes readCode (controlDigits character) character := by
  intro rest
  have notTrailing : isTrailing character.toNat = false := by
    simp only [isTrailing, Bool.and_eq_false_imp, decide_eq_true_eq]
    omega
  have notLeading : isLeading character.toNat = false := by
    simp only [isLeading, Bool.and_eq_false_imp, decide_eq_true_eq]
    omega
  rw [readCode, takes_controlDigits control rest]
  simp only [bind, Except.bind, notTrailing, notLeading, Char.ofNat_toNat]
  rfl

/-- A character is read back from its written form. -/
theorem readCharacters_quoteChar (steps : Nat) (character : Char) (rest : List Char) :
    readCharacters (steps + 1) (quoteChar character ++ rest) =
      (readCharacters steps rest).map fun (characters, rest) => (character :: characters, rest) := by
  have read : ∀ form, Takes readEscape form character →
      readCharacters (steps + 1) ('\\' :: form ++ rest) =
        (readCharacters steps rest).map fun (characters, rest) =>
          (character :: characters, rest) := by
    intro form takes
    rw [List.cons_append, readCharacters, takes rest]
    simp only [bind, Except.bind]
    cases readCharacters steps rest <;> rfl
  unfold quoteChar
  split_ifs with quotation backslash backspace formFeed lineFeed return_ tab control
  · subst quotation
    exact read ['"'] fun _ => rfl
  · subst backslash
    exact read ['\\'] fun _ => rfl
  · subst backspace
    exact read ['b'] fun _ => rfl
  · subst formFeed
    exact read ['f'] fun _ => rfl
  · subst lineFeed
    exact read ['n'] fun _ => rfl
  · subst return_
    exact read ['r'] fun _ => rfl
  · subst tab
    exact read ['t'] fun _ => rfl
  · exact read ('u' :: controlDigits character) fun rest => takes_readCode control rest
  · rw [List.singleton_append, readCharacters, if_neg control]
    · simp only [bind, Except.bind]
      cases readCharacters steps rest <;> rfl
    · exact quotation
    · exact backslash

theorem quoteChar_ne_nil (character : Char) : quoteChar character ≠ [] := by
  unfold quoteChar
  split_ifs <;> simp

end Escapes

/-! ## Literals -/

theorem readCharacters_quoted (text rest : List Char) {steps : Nat} (enough : text.length < steps) :
    readCharacters steps (text.flatMap quoteChar ++ '"' :: rest) = .ok (text, rest) := by
  induction text generalizing steps with
  | nil =>
      cases steps with
      | zero => exact absurd enough (Nat.not_lt_zero _)
      | succ steps => rfl
  | cons first others ih =>
      cases steps with
      | zero => exact absurd enough (Nat.not_lt_zero _)
      | succ steps =>
          rw [List.flatMap_cons, List.append_assoc, readCharacters_quoteChar,
            ih (Nat.lt_of_succ_lt_succ enough)]
          rfl

theorem length_le_flatMap_quoteChar (text : List Char) :
    text.length ≤ (text.flatMap quoteChar).length := by
  induction text with
  | nil => exact Nat.le_refl 0
  | cons first others ih =>
      have one := List.length_pos_iff.mpr (quoteChar_ne_nil first)
      rw [List.flatMap_cons, List.length_append, List.length_cons]
      omega

/-- What stands behind the opening mark of a literal. -/
def quoteTail (text : String) : List Char := text.toList.flatMap quoteChar ++ ['"']

theorem quote_append (text : String) (rest : List Char) :
    quote text ++ rest = '"' :: (quoteTail text ++ rest) := rfl

/-- **A text is read back from its literal.** -/
theorem takes_quoteTail (text : String) : Takes readString (quoteTail text) text := by
  intro rest
  have enough : text.toList.length < (quoteTail text ++ rest).length + 1 := by
    have lengths := length_le_flatMap_quoteChar text.toList
    simp only [quoteTail, List.length_append]
    omega
  have read := readCharacters_quoted text.toList rest enough
  rw [readString]
  have split : quoteTail text ++ rest = text.toList.flatMap quoteChar ++ '"' :: rest := by
    rw [quoteTail, List.append_assoc, List.singleton_append]
  rw [split] at read ⊢
  rw [read]
  simp only [bind, Except.bind, pure, Except.pure, String.ofList_toList]

/-- Two literals in front of two texts are told from what stands behind them. -/
theorem quote_append_inj {left right : String} {rest others : List Char}
    (same : quote left ++ rest = quote right ++ others) : left = right ∧ rest = others := by
  rw [quote_append, quote_append] at same
  exact (takes_quoteTail left).append_inj (takes_quoteTail right) (List.cons.inj same).2

end Json

end FirstPaint
