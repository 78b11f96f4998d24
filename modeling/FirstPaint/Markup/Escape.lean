/-!
# Escaping in markup

Characters that would be read as markup are written as entities. Which ones
depends on where the text stands: between tags the angle brackets are escaped,
inside a quoted attribute value the quotation mark. The ampersand and the
no-break space are escaped in both places.
-/

set_option autoImplicit false

namespace FirstPaint

/-- Where escaped text stands. -/
inductive EscapeContext where
  /-- Between tags. -/
  | content
  /-- Inside a quoted attribute value. -/
  | attributeValue
deriving DecidableEq, Repr

/-- How a character is written. -/
def EscapeContext.escapeChar (context : EscapeContext) (character : Char) : List Char :=
  if character = '&' then "&amp;".toList
  else if character = '\u00a0' then "&nbsp;".toList
  else
    match context with
    | .content =>
      if character = '<' then "&lt;".toList
      else if character = '>' then "&gt;".toList
      else [character]
    | .attributeValue => if character = '"' then "&quot;".toList else [character]

/-- How a text is written. -/
def EscapeContext.escape (context : EscapeContext) (text : List Char) : List Char :=
  text.flatMap context.escapeChar

end FirstPaint
