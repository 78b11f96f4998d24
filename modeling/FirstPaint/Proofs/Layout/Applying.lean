import FirstPaint.Layout.Apply
import FirstPaint.Proofs.Stylesheet.Landing

/-!
# What applying a layout does

A layout writes to the attributes of its element and places at most one new child
in front of the others: the sizer. Applied to a node of the store, it lets the tree
grow; whether the sizer may be placed there makes no difference to that.
-/

set_option autoImplicit false

namespace FirstPaint

/-- Elements with other tags are neither boilerplate nor styles. -/
theorem Element.ofPairs_plain (tag : String)
    (noStyle : Ascii.sameName (Ascii.lower tag) "style" = false)
    (noNoscript : Ascii.lower tag ≠ "noscript") (pairs : List (String × String)) :
    (Element.ofPairs tag pairs).Plain := by
  have different : Ascii.lower tag ≠ "style" := by
    intro same
    rw [same] at noStyle
    exact absurd noStyle (by with_unfolding_all decide)
  refine ⟨?_, ?_⟩
  · simp [NoBoilerplate, Element.ofPairs, belongsToBoilerplate, different, noNoscript]
  · simp [isCustomStyle, Element.ofPairs, noStyle]

namespace LayoutBox

section Applying

variable {scope : Scope} {before middle : Tree} {id : NodeId}

/-- The elements that sizers are made of may be added. -/
structure AllowsSizers (added : Element → Prop) : Prop where
  ratio : ∀ style, added (Element.ofPairs sizerTag [("style", style)])
  holder : added (Element.ofPairs sizerTag [("class", sizerTag)])
  image : ∀ source, added (Element.ofPairs "img" [("alt", ""), ("aria-hidden", "true"),
    ("class", "i-amphtml-intrinsic-sizer"), ("role", "presentation"), ("src", source)])

theorem plain_sizer (pairs : List (String × String)) : (Element.ofPairs sizerTag pairs).Plain :=
  Element.ofPairs_plain sizerTag (by with_unfolding_all decide) (by with_unfolding_all decide) pairs

theorem plain_image (pairs : List (String × String)) : (Element.ofPairs "img" pairs).Plain :=
  Element.ofPairs_plain "img" (by with_unfolding_all decide) (by with_unfolding_all decide) pairs

theorem allowsSizers_plain : AllowsSizers Element.Plain where
  ratio _ := plain_sizer _
  holder := plain_sizer _
  image _ := plain_image _

section Sizers

variable {added : Element → Prop} (allows : AllowsSizers added)
include allows

theorem createRatioSizer_creates (grows : Tree.Grows scope added before middle)
    (width height : Magnitude) :
    Tree.Creates scope added before (createRatioSizer middle width height) :=
  grows.createElement (allows.ratio _)

/-- The image comes into a sizer that is itself new, so no earlier node receives it. -/
theorem createImageSizer_creates (forest : before.Forest)
    (grows : Tree.Grows scope added before middle) (width height : Magnitude) :
    Tree.Creates scope added before (createImageSizer middle width height) := by
  have image := grows.createElement
    (allows.image (emptyImage (wholePixels width) (wholePixels height)))
  have sizer := image.grows.createElement allows.holder
  have attached := sizer.grows.forest.attached_append sizer.inside
    (Tree.lt_size_create_of_lt _ image.inside)
  refine ⟨sizer.grows.attach forest image.isNew (fun earlier => ?_) attached, sizer.isNew, ?_⟩
  · exact absurd earlier (Nat.not_lt_of_le sizer.isNew)
  · exact Nat.lt_of_lt_of_eq sizer.inside attached.sameContent.size.symm

theorem createSizer?_creates (forest : before.Forest)
    (grows : Tree.Grows scope added before middle)
    {box : LayoutBox} {created : NodeId × Tree} (found : box.createSizer? middle = some created) :
    Tree.Creates scope added before created := by
  obtain ⟨⟨width, height⟩, -, chosen⟩ := Option.bind_eq_some_iff.mp found
  cases layout : box.layout with
  | responsive =>
      simp only [layout, Option.some.injEq] at chosen
      subst chosen
      exact createRatioSizer_creates allows grows width height
  | intrinsic =>
      simp only [layout, Option.some.injEq] at chosen
      subst chosen
      exact createImageSizer_creates allows forest grows width height
  | nodisplay | fixed | fixedHeight | container | fill | flexItem | fluid =>
      simp [layout] at chosen

end Sizers

theorem withClass_grows (grows : Tree.Grows scope Element.Plain before middle)
    (inside : id < before.size) (written : scope.written id) (cssClass : String) :
    Tree.Grows scope Element.Plain before (middle.withClass id cssClass) :=
  grows.setAttribute "class" _ inside written

theorem prependStyle_grows (grows : Tree.Grows scope Element.Plain before middle)
    (inside : id < before.size) (written : scope.written id) (declarations : String) :
    Tree.Grows scope Element.Plain before (middle.prependStyle id declarations) := by
  unfold Tree.prependStyle
  simp only
  split
  next => exact grows
  next => exact grows.setAttribute "style" _ inside written

theorem writeAttributes_grows (grows : Tree.Grows scope Element.Plain before middle)
    (inside : id < before.size) (written : scope.written id) (box : LayoutBox) :
    Tree.Grows scope Element.Plain before (box.writeAttributes middle id) := by
  have classed := withClass_grows grows inside written box.layout.cssClass
  have sized : Tree.Grows scope Element.Plain before
      (if box.layout.definesSize then
        (middle.withClass id box.layout.cssClass).withClass id Layout.sizedClass
      else middle.withClass id box.layout.cssClass) := by
    split
    next => exact withClass_grows classed inside written _
    next => exact classed
  unfold writeAttributes
  refine (prependStyle_grows ?_ inside written _).setAttribute layoutMarker _ inside written
  split
  next => exact sized.setAttribute "hidden" "hidden" inside written
  next => exact sized

/-- Applying a layout to a node of the store lets the tree grow. -/
theorem applyTo_grows (forest : before.Forest) (inside : id < before.size)
    (written : scope.written id) (receives : scope.given id) (box : LayoutBox) :
    Tree.Grows scope Element.Plain before (box.applyTo before id) := by
  have marked : Tree.Grows scope Element.Plain before _ :=
    writeAttributes_grows (.refl forest) inside written box
  unfold applyTo applyTo?
  simp only
  split
  next => exact .refl forest
  next =>
    split
    next => exact marked
    next sizer created found =>
      have creates := createSizer?_creates allowsSizers_plain forest marked found
      obtain ⟨after, done, attached⟩ := creates.grows.forest.prepend?
        (Nat.lt_of_lt_of_le inside creates.grows.size_le) creates.inside
      rw [done, Option.getD_some]
      exact creates.grows.attach forest creates.isNew (fun _ => receives) attached

end Applying

end LayoutBox

end FirstPaint
