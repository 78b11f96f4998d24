/-!
# Names without case

Element names, attribute names and keywords are compared without regard to the
case of the letters A to Z; every other character stands for itself. This
module holds that comparison and the few character classes that several parts
of the library share.
-/

set_option autoImplicit false

namespace FirstPaint

namespace Ascii

/-- The text with the letters A to Z in lower case. -/
def lower (text : String) : String := text.map Char.toLower

/-- Two names are the same when they differ at most in the case of letters. -/
def sameName (left right : String) : Bool := lower left == lower right

/-- The five white-space characters of markup: space, tab, line feed, form feed
and carriage return. -/
def isWhitespace (character : Char) : Bool :=
  character == ' ' || character == '\t' || character == '\n' || character == '\x0c' ||
    character == '\r'

/-- Characters that carry no content in style text: space, tab, line feed,
carriage return, null and vertical tab. -/
def isBlank (character : Char) : Bool :=
  character == ' ' || character == '\t' || character == '\n' || character == '\r' ||
    character == '\x00' || character == '\x0b'

/-- The list without the members of a class at either end. -/
def trim (outside : Char → Bool) (text : List Char) : List Char :=
  ((text.dropWhile outside).reverse.dropWhile outside).reverse

end Ascii

end FirstPaint
