import FirstPaint.Text.Ascii

/-!
# Layouts

How the box of an extension element is sized before its content is known. An
element asks for a layout by name, in any case.
-/

set_option autoImplicit false

namespace FirstPaint

/-- A rule by which a box is sized. -/
inductive Layout where
  /-- The element takes no space. -/
  | nodisplay
  /-- Width and height are given. -/
  | fixed
  /-- The height is given, the width is that of the container. -/
  | fixedHeight
  /-- The ratio of width and height is given, the width is that of the container. -/
  | responsive
  /-- The children give the size. -/
  | container
  /-- The element fills its parent. -/
  | fill
  /-- The element is an item of a flexible row or column. -/
  | flexItem
  /-- Like responsive, up to the natural size of the content. -/
  | intrinsic
  /-- The size follows from what is loaded. -/
  | fluid
deriving DecidableEq, Repr

namespace Layout

/-- Every layout. -/
def all : List Layout :=
  [.nodisplay, .fixed, .fixedHeight, .responsive, .container, .fill, .flexItem, .intrinsic,
    .fluid]

/-- The name of a layout. -/
def name : Layout → String
  | .nodisplay => "nodisplay"
  | .fixed => "fixed"
  | .fixedHeight => "fixed-height"
  | .responsive => "responsive"
  | .container => "container"
  | .fill => "fill"
  | .flexItem => "flex-item"
  | .intrinsic => "intrinsic"
  | .fluid => "fluid"

/-- The layout of a given name, spelled in any case. -/
def ofName? (name : String) : Option Layout := all.find? (Ascii.sameName ·.name name)

/-- Whether the size of the box is known from the layout and the attributes. -/
def definesSize : Layout → Bool
  | .nodisplay | .container => false
  | .fixed | .fixedHeight | .responsive | .fill | .flexItem | .intrinsic | .fluid => true

/-- Whether the layout can be applied without the browser. -/
def isStatic (layout : Layout) : Bool := layout != .fluid

/-- The class of elements with that layout. -/
def cssClass (layout : Layout) : String := "i-amphtml-layout-" ++ layout.name

/-- The class of elements whose layout defines their size. -/
def sizedClass : String := "i-amphtml-layout-size-defined"

end Layout

end FirstPaint
