import FirstPaint.Text.Ascii

/-!
# Lists of conditional sizes

A list of conditional sizes is written with commas. The last item is the size
that applies by default; each item before it is a condition and a size,
separated by the last white space of the item. Items without white space are
skipped. Blank characters and semicolons around the parts do not count.
-/

set_option autoImplicit false

namespace FirstPaint

/-- A size that applies under a condition. -/
structure ConditionalSize where
  /-- When the size applies. -/
  condition : List Char
  /-- The size. -/
  size : List Char
deriving DecidableEq, Repr

/-- A default size with conditional sizes that override it. -/
structure SizeList where
  /-- The size that applies when no condition holds. -/
  default : List Char
  /-- The conditional sizes in order. -/
  conditional : List ConditionalSize
deriving DecidableEq, Repr

namespace SizeList

/-- Characters that do not count around a part. -/
def isPadding (character : Char) : Bool := Ascii.isBlank character || character == ';'

/-- A part without the characters around it that do not count. -/
def trim (part : List Char) : List Char := Ascii.trim isPadding part

/-- White space that separates a condition from its size. -/
def isSeparator (character : Char) : Bool :=
  Ascii.isWhitespace character || character == '\x0b'

/-- What stands before and after the last separator. -/
def splitAtLastSeparator? (item : List Char) : Option (List Char × List Char) :=
  let backwards := item.reverse
  match backwards.dropWhile (fun character => !isSeparator character) with
  | [] => none
  | _ :: before =>
    some (before.reverse,
      (backwards.takeWhile fun character => !isSeparator character).reverse)

/-- The conditional sizes in a list of items, or nothing if a condition or a
size is empty. -/
def readConditional? : List (List Char) → Option (List ConditionalSize)
  | [] => some []
  | item :: rest =>
    match splitAtLastSeparator? item with
    | none => readConditional? rest
    | some (before, after) =>
      let condition := trim before
      let size := trim after
      if condition.isEmpty || size.isEmpty then none
      else (readConditional? rest).map (⟨condition, size⟩ :: ·)

/-- Reads a list of conditional sizes; nothing if a part is empty. -/
def read? (value : List Char) : Option SizeList := do
  let items := value.splitOn ','
  let default := trim (items.getLast?.getD [])
  if default.isEmpty then none
  else return { default, conditional := ← readConditional? items.dropLast }

/-- The rules that give a property of the selected elements the sizes of the
list. -/
def rules (list : SizeList) (selector property : List Char) : List Char :=
  selector ++ '{' :: property ++ ':' :: list.default ++ ['}', ';'] ++
    list.conditional.flatMap fun entry =>
      "@media ".toList ++ entry.condition ++ '{' :: selector ++ '{' :: property ++
        ':' :: entry.size ++ [';', '}', '}']

end SizeList

end FirstPaint
