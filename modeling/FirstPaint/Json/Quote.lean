/-!
# Quoted strings

How a text is written as a string literal in JSON: the quotation mark, the
backslash and the control characters are escaped, everything else stands for
itself. Five control characters have short escapes, the others are written as
four hexadecimal digits in lower case.
-/

set_option autoImplicit false

namespace FirstPaint

namespace Json

/-- The four hexadecimal digits of a control character. -/
def controlDigits (character : Char) : List Char :=
  ['0', '0', Nat.digitChar (character.toNat / 16), Nat.digitChar (character.toNat % 16)]

/-- How a character is written inside a string literal. -/
def quoteChar (character : Char) : List Char :=
  if character = '"' then ['\\', '"']
  else if character = '\\' then ['\\', '\\']
  else if character = '\x08' then ['\\', 'b']
  else if character = '\x0c' then ['\\', 'f']
  else if character = '\n' then ['\\', 'n']
  else if character = '\r' then ['\\', 'r']
  else if character = '\t' then ['\\', 't']
  else if character.toNat < 32 then '\\' :: 'u' :: controlDigits character
  else [character]

/-- The string literal that stands for a text. -/
def quote (text : String) : List Char := '"' :: text.toList.flatMap quoteChar ++ ['"']

/-- Members of a list with commas between them. -/
def commaSeparated (members : List (List Char)) : List Char :=
  (members.intersperse [',']).flatten

end Json

end FirstPaint
