import FirstPaint.Document.Editing
import FirstPaint.Layout.Box

/-!
# Applying a layout

A layout is fixed to an element by classes, by style declarations in front of
the style it has, and by a marker with the name of the layout. Where the height
follows from the width, a sizer is placed before the children: an element that
reserves the space until the content arrives. An audio player is left alone.
-/

set_option autoImplicit false

namespace FirstPaint

/-- The marker of elements whose layout has been applied. The html element
carries it once the whole document has been treated. -/
def layoutMarker : String := "i-amphtml-layout"

/-- The tag of sizers. -/
def sizerTag : String := "i-amphtml-sizer"

namespace Tree

/-- Adds a class after the classes an element has. -/
def withClass (tree : Tree) (id : NodeId) (cssClass : String) : Tree :=
  let present := (tree.attribute? id "class").getD ""
  tree.setAttribute id "class" (if present.isEmpty then cssClass else present ++ " " ++ cssClass)

/-- Writes declarations in front of the style an element has, since that may
lack a final semicolon. Nothing is written if both are empty. -/
def prependStyle (tree : Tree) (id : NodeId) (declarations : String) : Tree :=
  let style := declarations ++ (tree.attribute? id "style").getD ""
  if style.isEmpty then tree else tree.setAttribute id "style" style

end Tree

namespace LayoutBox

/-- A style declaration for a length. -/
def declaration (property : String) (length : Length) : String :=
  property ++ ":" ++ length.css ++ ";"

/-- A style declaration for a length that is given. -/
def declarationIfDefined (property : String) (length : Length) : String :=
  if length.isDefined then declaration property length else ""

/-- The declarations that fix the size of a box. -/
def declarations (box : LayoutBox) : String :=
  match box.layout with
  | .fixed => declaration "width" box.width ++ declaration "height" box.height
  | .fixedHeight => declaration "height" box.height
  | .flexItem => declarationIfDefined "width" box.width ++ declarationIfDefined "height" box.height
  | .nodisplay | .responsive | .container | .fill | .intrinsic | .fluid => ""

/-- Classes, style and marker of a box. -/
def writeAttributes (box : LayoutBox) (tree : Tree) (id : NodeId) : Tree :=
  let classed := tree.withClass id box.layout.cssClass
  let classed :=
    if box.layout.definesSize then classed.withClass id Layout.sizedClass else classed
  let hidden :=
    if box.layout == .nodisplay then classed.setAttribute id "hidden" "hidden" else classed
  (hidden.prependStyle id box.declarations).setAttribute id layoutMarker box.layout.name

/-! ## Sizers -/

/-- Height as a percentage of width, with four places: first the quotient is
rounded to a magnitude, then its hundredfold. -/
def heightPercentage (width height : Magnitude) : List Char :=
  match height.div? width with
  | none => ['N', 'a', 'N']
  | some ratio =>
    match ratio.mul? (Magnitude.ofNat 100) with
    | none => ['N', 'a', 'N']
    | some percentage => percentage.toFixed 4

/-- A sizer that keeps the ratio of height and width by its padding. -/
def createRatioSizer (tree : Tree) (width height : Magnitude) : NodeId × Tree :=
  tree.createElement sizerTag
    [("style", "display:block;padding-top:" ++ String.ofList (heightPercentage width height) ++
      "%;")]

/-- The greatest number of pixels that is written for an image. -/
def greatestPixels : Nat := Nat.pow 2 63 - 1

/-- Whole pixels that fit into a magnitude. Rounding down lets two boxes of
half a pixel more each fit where their sum fits. -/
def wholePixels (magnitude : Magnitude) : Nat :=
  match magnitude.floor? with
  | some pixels => min pixels greatestPixels
  | none => greatestPixels

/-- An empty image of a given size. -/
def emptyImage (width height : Nat) : String :=
  "data:image/svg+xml;charset=utf-8,<svg height=\"" ++ toString height ++ "\" width=\"" ++
    toString width ++ "\" xmlns=\"http://www.w3.org/2000/svg\" version=\"1.1\"/>"

/-- A sizer that holds an empty image of the natural size. -/
def createImageSizer (tree : Tree) (width height : Magnitude) : NodeId × Tree :=
  let (image, withImage) := tree.createElement "img"
    [("alt", ""), ("aria-hidden", "true"), ("class", "i-amphtml-intrinsic-sizer"),
      ("role", "presentation"), ("src", emptyImage (wholePixels width) (wholePixels height))]
  let (sizer, withSizer) := withImage.createElement sizerTag [("class", sizerTag)]
  (sizer, withSizer.append sizer image)

/-- The numerals of width and height, if they have the same unit and the width
is positive. Only such a box has a sizer. -/
def ratioParts? (box : LayoutBox) : Option (Magnitude × Magnitude) := do
  let width ← box.width.numeral?
  let height ← box.height.numeral?
  if width.isZero || box.width.unit? != box.height.unit? then none else some (width, height)

/-- Creates the sizer of a box, if its layout has one. -/
def createSizer? (box : LayoutBox) (tree : Tree) : Option (NodeId × Tree) := do
  let (width, height) ← box.ratioParts?
  match box.layout with
  | .responsive => some (createRatioSizer tree width height)
  | .intrinsic => some (createImageSizer tree width height)
  | .nodisplay | .fixed | .fixedHeight | .container | .fill | .flexItem | .fluid => none

/-- Applies a box to an element. There is no result if a sizer would have to be
placed in a node outside the store. -/
def applyTo? (box : LayoutBox) (tree : Tree) (id : NodeId) : Option Tree :=
  if tree.isTagged id audioTag then some tree
  else
    let written := box.writeAttributes tree id
    match box.createSizer? written with
    | none => some written
    | some (sizer, created) => created.prepend? id sizer

/-- Applies a box to an element of the tree. -/
def applyTo (box : LayoutBox) (tree : Tree) (id : NodeId) : Tree :=
  (box.applyTo? tree id).getD tree

end LayoutBox

end FirstPaint
