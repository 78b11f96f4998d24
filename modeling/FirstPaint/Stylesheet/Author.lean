import FirstPaint.Document.Lookup

/-!
# Author styles

A document may carry author styles in two places: in the custom stylesheet,
which is the first style element of the head with the custom marker, and in the
style attributes of the body. There is one limit for both together, so they are
measured together.
-/

set_option autoImplicit false

namespace FirstPaint

/-- The attribute that marks the custom stylesheet. -/
def customStyleMarker : String := "amp-custom"

namespace Tree

variable (tree : Tree)

/-- Whether a node is a style element that carries a marker. -/
def isStyleMarked (id : NodeId) (marker : String) : Bool :=
  tree.isTagged id "style" && tree.hasAttribute id marker

/-- The custom stylesheet: the first one in the head. -/
def customStyle? : Option NodeId := do
  (tree.descendants (← tree.head?)).find? (tree.isStyleMarked · customStyleMarker)

/-- Bytes in the custom stylesheet. -/
def stylesheetSize : Nat :=
  (tree.customStyle?.map fun style => (tree.textContent style).utf8ByteSize).getD 0

/-- Bytes in the style attributes below the body. -/
def inlineStyleSize : Nat :=
  match tree.body? with
  | none => 0
  | some body =>
    (((tree.descendants body).filterMap (tree.attribute? · "style")).map
      String.utf8ByteSize).foldr (· + ·) 0

/-- Bytes of author styles in the document. -/
def authorStyleSize : Nat := tree.stylesheetSize + tree.inlineStyleSize

end Tree

end FirstPaint
