import FirstPaint.Document.Tree
import FirstPaint.Layout.Kind
import FirstPaint.Layout.Length
import FirstPaint.Report.Finding

/-!
# The box of an element

Layout and size of an extension element follow from its attributes: the layout
it asks for, its width and height, and whether it has conditional sizes. Some
extensions have a size of their own, which is used where no size is given. An
element that asks for no layout gets one that suits the sizes it has.
-/

set_option autoImplicit false

namespace FirstPaint

/-- A layout with the sizes it is applied with. -/
structure LayoutBox where
  /-- The layout. -/
  layout : Layout
  /-- The width, where a built-in width counts as given. -/
  width : Length
  /-- The height, where a built-in height counts as given. -/
  height : Length
deriving DecidableEq, Repr

/-- Why no layout can be applied to an element. -/
inductive BoxError where
  /-- The width is not accepted. -/
  | invalidWidth (reason : LengthError)
  /-- The height is not accepted. -/
  | invalidHeight (reason : LengthError)
  /-- The layout needs the browser. -/
  | unsupported (layout : Layout)
deriving DecidableEq, Repr

namespace BoxError

/-- The wording of a refusal. -/
def message : BoxError → String
  | .invalidWidth reason => "invalid width: " ++ reason.message
  | .invalidHeight reason => "invalid height: " ++ reason.message
  | .unsupported layout => "layout `" ++ layout.name ++ "` cannot be rendered server-side"

/-- The cause under which a refusal is reported. -/
def cause : BoxError → RenderingProblem
  | .invalidWidth _ => .invalidWidth
  | .invalidHeight _ => .invalidHeight
  | .unsupported _ => .unsupportedLayout

end BoxError

/-- The extension that plays audio. Its size depends on the browser. -/
def audioTag : String := "amp-audio"

/-- Width and height of extensions that have a size of their own. -/
def builtInSize? (tag : String) : Option (Length × Length) :=
  if tag = "amp-analytics" || tag = "amp-pixel" then some (.px 1, .px 1)
  else if tag = audioTag then some (.auto, .auto)
  else if tag = "amp-social-share" then some (.px 60, .px 44)
  else none

namespace LayoutBox

/-- The given length, or the built-in one if none is given and the layout
admits it. -/
def effective (given : Length) (builtIn? : Option Length) (admitted : Bool) : Length :=
  if admitted && !given.isDefined then builtIn?.getD given else given

/-- The layout that suits the sizes of an element which asks for none. -/
def suitable (width height : Length) (hasConditionalSizes : Bool) : Layout :=
  if !width.isDefined && !height.isDefined then .container
  else if height.isDefined && (!width.isDefined || width.isAuto) then .fixedHeight
  else if height.isDefined && width.isDefined && hasConditionalSizes then .responsive
  else .fixed

/-- The box that follows from a tag, the layout asked for and the values of the
two size attributes. A bad width is reported before a bad height, and both
before a layout that is not supported. -/
def resolve (tag : String) (requested? : Option Layout) (width? height? : Option String)
    (hasConditionalSizes : Bool) : Except BoxError LayoutBox := do
  let givenWidth ← (Length.parse width? true false).mapError .invalidWidth
  let givenHeight ←
    (Length.parse height? true (requested? == some .fluid)).mapError .invalidHeight
  -- A built-in size stands in only where a fixed layout, or none, is asked for.
  let builtIn? := builtInSize? tag
  let width := effective givenWidth (builtIn?.map (·.1))
    (requested? == none || requested? == some .fixed)
  let height := effective givenHeight (builtIn?.map (·.2))
    (requested? == none || requested? == some .fixed || requested? == some .fixedHeight)
  let layout := requested?.getD (suitable width height hasConditionalSizes)
  if layout.isStatic then .ok { layout, width, height }
  else .error (.unsupported layout)

/-- The box of an element of a tree. -/
def ofElement (tree : Tree) (id : NodeId) (hasConditionalSizes : Bool) :
    Except BoxError LayoutBox :=
  resolve ((tree.tag? id).getD "") ((tree.attribute? id "layout").bind Layout.ofName?)
    (tree.attribute? id "width") (tree.attribute? id "height") hasConditionalSizes

end LayoutBox

end FirstPaint
