import FirstPaint.Numeric.Magnitude

/-!
# The words of JSON

Reading from left to right, what stands first in a text that should be JSON:
blanks, the literal names, numbers and strings. Each reader takes the text from
its place and returns what it has read with the rest.

A text is refused at the first fault, and there are three kinds of fault: the
text ends too early, it breaks the grammar, or it is fine as JSON but not what
is expected at that place.
-/

set_option autoImplicit false

namespace FirstPaint

/-- Why a text is refused. -/
inductive JsonFault where
  /-- The text ends too early. -/
  | truncated
  /-- The text breaks the grammar. -/
  | malformed
  /-- The text is grammatical but not what is expected. -/
  | mismatched
deriving DecidableEq, Repr

/-- A reader takes what it reads from the front of a text and leaves the rest. -/
abbrev JsonReader (α : Type) := List Char → Except JsonFault (α × List Char)

namespace Json

/-- White space between tokens. -/
def isBlank (character : Char) : Bool :=
  character == ' ' || character == '\n' || character == '\t' || character == '\r'

/-- The text from its first character that is not blank. -/
def skipBlanks (text : List Char) : List Char := text.dropWhile isBlank

/-- Takes away a word that has to come first. -/
def expectWord : List Char → JsonReader Unit
  | [], text => .ok ((), text)
  | _ :: _, [] => .error .truncated
  | expected :: word, character :: text =>
    if expected = character then expectWord word text else .error .malformed

/-! ## Numbers

A number is read in two steps. As long as its whole part fits into 64 bits it
is kept exactly; the rest is a decimal exponent. A number without point and
exponent is then a whole number, any other number is a magnitude, which arises
from the kept digits by multiplying with or dividing by powers of ten. Signs of
magnitudes are dropped. -/

/-- A number as far as the library tells numbers apart. -/
inductive Number where
  /-- A whole number of at most 64 bits. -/
  | whole (value : Nat)
  /-- The negative of a whole number that is not zero and fits into 63 bits. -/
  | negative (value : Nat)
  /-- Any other number, by its magnitude. -/
  | real (magnitude : Magnitude)
deriving DecidableEq, Repr

/-- The greatest whole number of 64 bits. -/
def greatestWhole : Nat := Nat.pow 2 64 - 1

/-- The greatest exponent that is told apart from larger ones. -/
def greatestExponent : Nat := Nat.pow 2 31 - 1

/-- The value of a decimal digit. -/
def digitValue (digit : Char) : Nat := digit.toNat - '0'.toNat

/-- Digits of a number that are kept exactly, and the power of ten that they
are multiplied with. -/
structure ScaledDigits where
  /-- The digits kept. -/
  significand : Nat
  /-- The power of ten. -/
  exponent : Int
deriving DecidableEq, Repr

/-- The significand with one more digit, if it still fits. -/
def extend? (significand : Nat) (digit : Char) : Option Nat :=
  let extended := 10 * significand + digitValue digit
  if extended ≤ greatestWhole then some extended else none

/-- Digits before the point: those that fit are kept, and each further one only
counts as a power of ten. -/
def keepWhole : Nat → List Char → ScaledDigits
  | significand, [] => ⟨significand, 0⟩
  | significand, digit :: rest =>
    match extend? significand digit with
    | some extended => keepWhole extended rest
    | none => ⟨significand, (digit :: rest).length⟩

/-- Digits after the point: those that fit are kept, further ones are dropped. -/
def keepFraction (number : ScaledDigits) : List Char → ScaledDigits
  | [] => number
  | digit :: rest =>
    match extend? number.significand digit with
    | some extended => keepFraction ⟨extended, number.exponent - 1⟩ rest
    | none => number

/-- The value of the digits of an exponent, or none if it is too large to be
told apart. -/
def exponentValue? : Nat → List Char → Option Nat
  | value, [] => some value
  | value, digit :: rest =>
    let extended := 10 * value + digitValue digit
    if extended ≤ greatestExponent then exponentValue? extended rest else none

/-- The greatest power of ten that is a magnitude. -/
def greatestPower : Nat := 308

/-- A power of ten as a magnitude. -/
def powerOfTen (exponent : Nat) : Magnitude := Magnitude.ofNat (Nat.pow 10 exponent)

/-- Divides by a power of ten, in steps of the greatest one. A value that has
become zero stays zero. -/
def divideByPower : Nat → Magnitude → Nat → Magnitude
  | 0, _, _ => .finite 0 0
  | steps + 1, value, exponent =>
    if exponent ≤ greatestPower then (value.div? (powerOfTen exponent)).getD value
    else if value.isZero then value
    else
      divideByPower steps ((value.div? (powerOfTen greatestPower)).getD value)
        (exponent - greatestPower)

/-- The magnitude of a decimal, or none if it is beyond every finite one. -/
def ScaledDigits.toMagnitude? (number : ScaledDigits) : Option Magnitude :=
  let value := Magnitude.ofNat number.significand
  match number.exponent with
  | .ofNat exponent =>
    if exponent ≤ greatestPower then
      match value.mul? (powerOfTen exponent) with
      | some .infinite => none
      | product? => product?
    else if value.isZero then some value
    else none
  | .negSucc exponent =>
    -- Three steps of the greatest power take every significand to zero.
    some (divideByPower 4 value (exponent + 1))

/-- The magnitude of a decimal with an exponent that is still to be read. -/
def readExponent (number : ScaledDigits) : JsonReader Number := fun text =>
  let (negative, text) :=
    match text with
    | '+' :: rest => (false, rest)
    | '-' :: rest => (true, rest)
    | _ => (false, text)
  match text with
  | [] => .error .truncated
  | first :: _ =>
    if !first.isDigit then .error .malformed
    else
      let rest := text.dropWhile Char.isDigit
      match exponentValue? 0 (text.takeWhile Char.isDigit) with
      | none =>
        -- The power alone decides, unless the digits are zero.
        if number.significand = 0 || negative then .ok (.real (.finite 0 0), rest)
        else .error .malformed
      | some value =>
        let exponent : Int := if negative then -value else value
        finish ⟨number.significand, number.exponent + exponent⟩ rest
where
  /-- The magnitude of a decimal, which has to be finite. -/
  finish (number : ScaledDigits) : JsonReader Number := fun rest =>
    match number.toMagnitude? with
    | some magnitude => .ok (.real magnitude, rest)
    | none => .error .malformed

/-- What may follow the digits before the point: a point with digits, an
exponent, or nothing. -/
def readTail (negative : Bool) (digits : List Char) : JsonReader Number := fun text =>
  let number := keepWhole 0 digits
  match text with
  | '.' :: rest =>
    match rest with
    | [] => .error .truncated
    | first :: _ =>
      if !first.isDigit then .error .malformed
      else
        let number := keepFraction number (rest.takeWhile Char.isDigit)
        match rest.dropWhile Char.isDigit with
        | 'e' :: rest | 'E' :: rest => readExponent number rest
        | rest => readExponent.finish number rest
  | 'e' :: rest | 'E' :: rest => readExponent number rest
  | _ =>
    if number.exponent ≠ 0 then readExponent.finish number text
    else if !negative then .ok (.whole number.significand, text)
    else if number.significand = 0 || Nat.pow 2 63 < number.significand then
      .ok (.real (Magnitude.ofNat number.significand), text)
    else .ok (.negative number.significand, text)

/-- A number after its sign. Zero is not followed by further digits. -/
def readUnsigned (negative : Bool) : JsonReader Number := fun text =>
  match text with
  | [] => .error .truncated
  | '0' :: rest =>
    match rest with
    | second :: _ => if second.isDigit then .error .malformed else readTail negative ['0'] rest
    | [] => readTail negative ['0'] []
  | first :: _ =>
    if first.isDigit then
      readTail negative (text.takeWhile Char.isDigit) (text.dropWhile Char.isDigit)
    else .error .malformed

/-- A number. -/
def readNumber : JsonReader Number := fun text =>
  match text with
  | '-' :: rest => readUnsigned true rest
  | _ => readUnsigned false text

/-- Whether a number starts with this character. -/
def startsNumber (character : Char) : Bool := character == '-' || character.isDigit

/-! ## Strings

A string ends at the next quotation mark. Control characters have to be
escaped. An escape with four hexadecimal digits gives a character by its code;
a character beyond the first 65536 is given by two such escapes in a row. -/

/-- The value of a hexadecimal digit. -/
def hexValue? (digit : Char) : Option Nat :=
  if digit.isDigit then some (digit.toNat - '0'.toNat)
  else if 'a' ≤ digit ∧ digit ≤ 'f' then some (digit.toNat - 'a'.toNat + 10)
  else if 'A' ≤ digit ∧ digit ≤ 'F' then some (digit.toNat - 'A'.toNat + 10)
  else none

/-- The number of bytes in a text. -/
def byteCount (text : List Char) : Nat := (text.map Char.utf8Size).foldr (· + ·) 0

/-- The number that four hexadecimal digits stand for. Fewer than four bytes up
to the end are too early an end, whatever they are. -/
def readHex : JsonReader Nat := fun text =>
  if byteCount (text.take 4) < 4 then .error .truncated
  else
    match text with
    | first :: second :: third :: fourth :: rest =>
      match hexValue? first, hexValue? second, hexValue? third, hexValue? fourth with
      | some first, some second, some third, some fourth =>
        .ok (((first * 16 + second) * 16 + third) * 16 + fourth, rest)
      | _, _, _, _ => .error .malformed
    | _ => .error .malformed

/-- Codes that come first in a pair. -/
def isLeading (code : Nat) : Bool := 0xd800 ≤ code && code ≤ 0xdbff

/-- Codes that come second in a pair. -/
def isTrailing (code : Nat) : Bool := 0xdc00 ≤ code && code ≤ 0xdfff

/-- The character given by an escape with a code, after the letter that
announces it. -/
def readCode : JsonReader Char := fun text => do
  let (code, rest) ← readHex text
  if isTrailing code then .error .malformed
  else if !isLeading code then return (Char.ofNat code, rest)
  else
    let ((), rest) ← expectWord ['\\', 'u'] rest
    let (second, rest) ← readHex rest
    if isTrailing second then
      return (Char.ofNat (0x10000 + (code - 0xd800) * 0x400 + (second - 0xdc00)), rest)
    else .error .malformed

/-- The character that an escape stands for, after the backslash. -/
def readEscape : JsonReader Char := fun text =>
  match text with
  | [] => .error .truncated
  | 'u' :: rest => readCode rest
  | '"' :: rest => .ok ('"', rest)
  | '\\' :: rest => .ok ('\\', rest)
  | '/' :: rest => .ok ('/', rest)
  | 'b' :: rest => .ok ('\x08', rest)
  | 'f' :: rest => .ok ('\x0c', rest)
  | 'n' :: rest => .ok ('\n', rest)
  | 'r' :: rest => .ok ('\r', rest)
  | 't' :: rest => .ok ('\t', rest)
  | _ => .error .malformed

/-- The characters of a string up to its closing quotation mark. Each step
takes at least one character, so the length of the text bounds their number. -/
def readCharacters : Nat → JsonReader (List Char)
  | 0, _ => .error .truncated
  | steps + 1, text =>
    match text with
    | [] => .error .truncated
    | '"' :: rest => .ok ([], rest)
    | '\\' :: rest => do
      let (character, rest) ← readEscape rest
      let (characters, rest) ← readCharacters steps rest
      return (character :: characters, rest)
    | character :: rest =>
      if character.toNat < 32 then .error .malformed
      else do
        let (characters, rest) ← readCharacters steps rest
        return (character :: characters, rest)

/-- The text of a string, after its opening quotation mark. -/
def readString : JsonReader String := fun text => do
  let (characters, rest) ← readCharacters (text.length + 1) text
  return (String.ofList characters, rest)

end Json

end FirstPaint
