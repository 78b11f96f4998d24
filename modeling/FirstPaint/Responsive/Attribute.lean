import FirstPaint.Layout.Apply
import FirstPaint.Responsive.SizeList

/-!
# Attributes that block rendering

Three attributes of extension elements have to be evaluated before anything can
be shown: conditional widths, conditional heights, and a media query outside of
which the element is hidden. Each can be said in style rules that address the
element by its id.
-/

set_option autoImplicit false

namespace FirstPaint

/-- An attribute that blocks rendering. -/
inductive ResponsiveAttribute where
  /-- Widths under conditions; they matter only where image sources are listed. -/
  | sizes
  /-- Heights under conditions. -/
  | heights
  /-- A media query outside of which the element is hidden. -/
  | media
deriving DecidableEq, Repr

namespace ResponsiveAttribute

/-- Every blocking attribute. -/
def all : List ResponsiveAttribute := [.sizes, .heights, .media]

/-- The name of the attribute. -/
def name : ResponsiveAttribute → String
  | .sizes => "sizes"
  | .heights => "heights"
  | .media => "media"

/-- The blocking attribute of a given name, spelled in any case. -/
def ofName? (name : String) : Option ResponsiveAttribute := all.find? (Ascii.sameName ·.name name)

end ResponsiveAttribute

/-- A list of conditional sizes that cannot be read. -/
structure UnreadableSizes where
  /-- The attribute. -/
  blocking : ResponsiveAttribute
  /-- Its value. -/
  value : String
deriving DecidableEq, Repr

/-- The wording of the problem. -/
def UnreadableSizes.message (malformed : UnreadableSizes) : String :=
  "malformed `" ++ malformed.blocking.name ++ "` attribute value `" ++ malformed.value ++ "`"

/-- What a blocking attribute asks of the style sheet. -/
inductive ResponsiveStyle where
  /-- Nothing: the attribute has no effect. -/
  | nothing
  /-- Widths of the element. -/
  | widths (list : SizeList)
  /-- Heights of the sizer in the element. -/
  | heights (list : SizeList)
  /-- The element is hidden where the query does not match. -/
  | hiddenOutside (query : List Char)
deriving DecidableEq, Repr

namespace ResponsiveStyle

/-- The query of a media attribute. A bare condition in parentheses cannot be
negated, so the media type is added that matches everywhere. -/
def ofMedia (value : List Char) : ResponsiveStyle :=
  match SizeList.trim value with
  | [] => .nothing
  | '(' :: rest => .hiddenOutside ("all and ".toList ++ '(' :: rest)
  | query => .hiddenOutside query

/-- Reads the value of a blocking attribute. Widths have no effect on an element
without image sources, whatever the value. -/
def read (blocking : ResponsiveAttribute) (value : String) (hasImageSources : Bool) :
    Except UnreadableSizes ResponsiveStyle :=
  match blocking with
  | .media => .ok (ofMedia value.toList)
  | .sizes => if hasImageSources then ofList widths else .ok .nothing
  | .heights => ofList heights
where
  /-- Reads a list of conditional sizes. -/
  ofList (make : SizeList → ResponsiveStyle) : Except UnreadableSizes ResponsiveStyle :=
    if value.isEmpty then .ok .nothing
    else
      match SizeList.read? value.toList with
      | some list => .ok (make list)
      | none => .error ⟨blocking, value⟩

/-- Whether no rule is needed. -/
def isNothing : ResponsiveStyle → Bool
  | .nothing => true
  | _ => false

/-- The rules for the element with a given id. -/
def rules (style : ResponsiveStyle) (id : String) : List Char :=
  let element := '#' :: id.toList
  match style with
  | .nothing => []
  | .widths list => list.rules element "width".toList
  | .heights list => list.rules (element ++ '>' :: sizerTag.toList) "height".toList
  | .hiddenOutside query =>
    "@media not ".toList ++ query ++ '{' :: element ++ '{' :: "display:none;".toList ++ ['}', '}']

end ResponsiveStyle

end FirstPaint
