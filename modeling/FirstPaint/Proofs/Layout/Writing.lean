import FirstPaint.Proofs.Document.Adding
import FirstPaint.Proofs.Document.Attributes
import FirstPaint.Proofs.Layout.Applying

/-!
# What a layout writes

The attributes that a layout leaves on its element are a function of the box and of
the attributes before (`LayoutBox.written`), and so is the sizer (`LayoutBox.sizer?`).
Nothing else of the tree decides them. What is found under the names that are written
is said value by value (`LayoutBox.Writes`).

A sizer is an element that is alone or holds one empty image (`Tree.IsSizer`). It
becomes the first child, in front of the children that were there (`applyTo_spec`).
-/

set_option autoImplicit false

namespace FirstPaint

/-! ## Attributes -/

/-- A class after the classes that are present. -/
def joinedClass (present? : Option String) (cssClass : String) : String :=
  if (present?.getD "").isEmpty then cssClass else present?.getD "" ++ " " ++ cssClass

namespace Attributes

/-- Adds a class after the classes that are present. -/
def withClass (attributes : Attributes) (cssClass : String) : Attributes :=
  attributes.insert "class" (joinedClass (attributes.get? "class") cssClass)

/-- Writes declarations in front of the style that is present, unless both are empty. -/
def prependStyle (attributes : Attributes) (declarations : String) : Attributes :=
  let style := declarations ++ (attributes.get? "style").getD ""
  if style.isEmpty then attributes else attributes.insert "style" style

end Attributes

namespace LayoutBox

/-- Classes, style and marker of a box, over the attributes of an element. -/
def written (box : LayoutBox) (attributes : Attributes) : Attributes :=
  let classed := attributes.withClass box.layout.cssClass
  let sized := if box.layout.definesSize then classed.withClass Layout.sizedClass else classed
  let hidden := if box.layout == .nodisplay then sized.insert "hidden" "hidden" else sized
  (hidden.prependStyle box.declarations).insert layoutMarker box.layout.name

end LayoutBox

namespace Tree

variable {tree : Tree} {id : NodeId} {tag : String} {attributes : Attributes}

theorem element?_withClass (found : tree.element? id = some ⟨tag, attributes⟩)
    (cssClass : String) :
    (tree.withClass id cssClass).element? id = some ⟨tag, attributes.withClass cssClass⟩ := by
  unfold withClass
  rw [attribute?_of_element? found]
  exact element?_setAttribute found "class" _

theorem element?_prependStyle (found : tree.element? id = some ⟨tag, attributes⟩)
    (declarations : String) :
    (tree.prependStyle id declarations).element? id =
      some ⟨tag, attributes.prependStyle declarations⟩ := by
  unfold prependStyle Attributes.prependStyle
  rw [attribute?_of_element? found]
  dsimp only
  split
  next => exact found
  next => exact element?_setAttribute found "style" _

theorem element?_writeAttributes (found : tree.element? id = some ⟨tag, attributes⟩)
    (box : LayoutBox) :
    (box.writeAttributes tree id).element? id = some ⟨tag, box.written attributes⟩ := by
  have classed := element?_withClass found box.layout.cssClass
  unfold LayoutBox.writeAttributes LayoutBox.written
  refine element?_setAttribute (element?_prependStyle ?_ box.declarations) layoutMarker _
  have sized : (if box.layout.definesSize then
      (tree.withClass id box.layout.cssClass).withClass id Layout.sizedClass
      else tree.withClass id box.layout.cssClass).element? id =
      some ⟨tag, if box.layout.definesSize then
        (attributes.withClass box.layout.cssClass).withClass Layout.sizedClass
        else attributes.withClass box.layout.cssClass⟩ := by
    split
    next => exact element?_withClass classed Layout.sizedClass
    next => exact classed
  split
  next => exact element?_setAttribute sized "hidden" "hidden"
  next => exact sized

/-- Writing attributes adds no node and moves none. -/
theorem writeAttributes_sameLinks (tree : Tree) (id : NodeId) (box : LayoutBox) :
    SameLinks tree (box.writeAttributes tree id) ∧
      (box.writeAttributes tree id).size = tree.size := by
  have marks : ∀ {before : Tree} (name value : String),
      SameLinks tree before ∧ before.size = tree.size →
        SameLinks tree (before.setAttribute id name value) ∧
          (before.setAttribute id name value).size = tree.size := by
    rintro before name value ⟨links, size⟩
    exact ⟨links.trans (.setAttribute before id name value), (size_modifyAttributes _).trans size⟩
  have classed := marks "class" (joinedClass (tree.attribute? id "class") box.layout.cssClass)
    ⟨.refl tree, rfl⟩
  unfold LayoutBox.writeAttributes
  refine marks layoutMarker _ ?_
  have hidden : ∀ {before : Tree}, SameLinks tree before ∧ before.size = tree.size →
      SameLinks tree (before.prependStyle id box.declarations) ∧
        (before.prependStyle id box.declarations).size = tree.size := by
    intro before same
    unfold prependStyle
    dsimp only
    split
    next => exact same
    next => exact marks "style" _ same
  refine hidden ?_
  split
  next =>
    refine marks "hidden" "hidden" ?_
    split
    next => exact marks "class" _ classed
    next => exact classed
  next =>
    split
    next => exact marks "class" _ classed
    next => exact classed

end Tree

/-! ## Values -/

/-- The names of the attributes that a layout writes. -/
def writtenNames : List String := ["class", "style", "hidden", layoutMarker]

namespace LayoutBox

variable (box : LayoutBox)

/-- The classes of an element after its layout has been applied. -/
def classes (present? : Option String) : String :=
  let classed := joinedClass present? box.layout.cssClass
  if box.layout.definesSize then joinedClass (some classed) Layout.sizedClass else classed

/-- The style of an element after its layout has been applied, if it has any. -/
def style? (present? : Option String) : Option String :=
  let style := box.declarations ++ present?.getD ""
  if style.isEmpty then present? else some style

/-- What says that an element is hidden after its layout has been applied. -/
def hidden? (present? : Option String) : Option String :=
  if box.layout == .nodisplay then some "hidden" else present?

/-- The values after a layout has been applied, by the values before. -/
structure Writes (before after : Attributes) : Prop where
  classes : after.get? "class" = some (box.classes (before.get? "class"))
  style : after.get? "style" = box.style? (before.get? "style")
  hidden : after.get? "hidden" = box.hidden? (before.get? "hidden")
  marker : after.get? layoutMarker = some box.layout.name

section Values

variable {box} {attributes : Attributes}

theorem get?_withClass (attributes : Attributes) (cssClass name : String) :
    (attributes.withClass cssClass).get? name =
      if "class" = Ascii.lower name then some (joinedClass (attributes.get? "class") cssClass)
      else attributes.get? name := by
  have lowered : Ascii.lower "class" = "class" := by with_unfolding_all decide
  rw [Attributes.withClass, Attributes.get?_insert, lowered]

theorem get?_prependStyle (box : LayoutBox) (attributes : Attributes) (name : String) :
    (attributes.prependStyle box.declarations).get? name =
      if "style" = Ascii.lower name then box.style? (attributes.get? "style")
      else attributes.get? name := by
  have lowered : Ascii.lower "style" = "style" := by with_unfolding_all decide
  unfold Attributes.prependStyle style?
  dsimp only
  split
  next =>
    split
    next same => rw [Attributes.get?, Attributes.get?, lowered, same]
    next => rfl
  next => rw [Attributes.get?_insert, lowered]

/-- The classes after both may have been added. -/
theorem get?_sized (box : LayoutBox) (attributes : Attributes) (name : String) :
    (if box.layout.definesSize then
      (attributes.withClass box.layout.cssClass).withClass Layout.sizedClass
      else attributes.withClass box.layout.cssClass).get? name =
      if "class" = Ascii.lower name then some (box.classes (attributes.get? "class"))
      else attributes.get? name := by
  have own : "class" = Ascii.lower "class" := by with_unfolding_all decide
  unfold classes
  split
  next =>
    rw [get?_withClass, get?_withClass, if_pos own]
    split
    next => rfl
    next other => rw [get?_withClass, if_neg other]
  next => exact get?_withClass attributes _ name

theorem get?_hidden (box : LayoutBox) (attributes : Attributes) (name : String) :
    (if box.layout == .nodisplay then attributes.insert "hidden" "hidden" else attributes).get?
      name =
      if "hidden" = Ascii.lower name then box.hidden? (attributes.get? name)
      else attributes.get? name := by
  have lowered : Ascii.lower "hidden" = "hidden" := by with_unfolding_all decide
  unfold hidden?
  split
  next => rw [Attributes.get?_insert, lowered]
  next => exact (ite_self _).symm

/-- What is written: each name is written by one of the steps, and the others pass it by. -/
theorem written_writes (box : LayoutBox) (attributes : Attributes) :
    box.Writes attributes (box.written attributes) where
  classes := by
    rw [written, Attributes.get?_insert_of_ne (by with_unfolding_all decide), get?_prependStyle,
      if_neg (by with_unfolding_all decide), get?_hidden, if_neg (by with_unfolding_all decide),
      get?_sized, if_pos (by with_unfolding_all decide)]
  style := by
    rw [written, Attributes.get?_insert_of_ne (by with_unfolding_all decide), get?_prependStyle,
      if_pos (by with_unfolding_all decide), get?_hidden, if_neg (by with_unfolding_all decide),
      get?_sized, if_neg (by with_unfolding_all decide)]
  hidden := by
    rw [written, Attributes.get?_insert_of_ne (by with_unfolding_all decide), get?_prependStyle,
      if_neg (by with_unfolding_all decide), get?_hidden, if_pos (by with_unfolding_all decide),
      get?_sized, if_neg (by with_unfolding_all decide)]
  marker := by rw [written, Attributes.get?_insert, if_pos rfl]

/-- A layout leaves the values under all other names alone. -/
theorem get?_written_of_apart (box : LayoutBox) (attributes : Attributes) {name : String}
    (apart : Ascii.lower name ∉ writtenNames) :
    (box.written attributes).get? name = attributes.get? name := by
  have lowered : Ascii.lower layoutMarker = layoutMarker := by with_unfolding_all decide
  simp only [writtenNames, List.mem_cons, List.not_mem_nil, or_false, not_or] at apart
  obtain ⟨noClass, noStyle, noHidden, noMarker⟩ := apart
  rw [written, Attributes.get?_insert_of_ne (by rw [lowered]; exact Ne.symm noMarker),
    get?_prependStyle, if_neg (Ne.symm noStyle), get?_hidden, if_neg (Ne.symm noHidden), get?_sized,
    if_neg (Ne.symm noClass)]

/-- What is written depends on the values under the names that are written. -/
theorem Writes.congr {before original after : Attributes} (writes : box.Writes before after)
    (same : ∀ name ∈ writtenNames, before.get? name = original.get? name) :
    box.Writes original after where
  classes := by rw [writes.classes, same "class" (by simp [writtenNames])]
  style := by rw [writes.style, same "style" (by simp [writtenNames])]
  hidden := by rw [writes.hidden, same "hidden" (by simp [writtenNames])]
  marker := writes.marker

end Values

end LayoutBox

/-! ## Sizers -/

/-- What a sizer is made of. -/
structure Sizer where
  /-- The element that reserves the space. -/
  holder : Element
  /-- The image in it, if there is one. -/
  image? : Option Element := none
deriving DecidableEq, Repr

namespace LayoutBox

/-- The sizer of a box, if its layout has one. -/
def sizer? (box : LayoutBox) : Option Sizer := do
  let (width, height) ← box.ratioParts?
  match box.layout with
  | .responsive =>
    some
      { holder := Element.ofPairs sizerTag
          [("style", "display:block;padding-top:" ++
            String.ofList (heightPercentage width height) ++ "%;")] }
  | .intrinsic =>
    some
      { holder := Element.ofPairs sizerTag [("class", sizerTag)]
        image? := some (Element.ofPairs "img"
          [("alt", ""), ("aria-hidden", "true"), ("class", "i-amphtml-intrinsic-sizer"),
            ("role", "presentation"),
            ("src", emptyImage (wholePixels width) (wholePixels height))]) }
  | .nodisplay | .fixed | .fixedHeight | .container | .fill | .flexItem | .fluid => none

end LayoutBox

namespace Tree

/-- The node is a sizer: it has no children, or one without children. -/
inductive IsSizer (tree : Tree) (id : NodeId) : Sizer → Prop where
  | bare {holder : Element} (found : tree.element? id = some holder)
      (empty : tree.children id = []) : IsSizer tree id { holder }
  | holding {holder picture : Element} {image : NodeId} (found : tree.element? id = some holder)
      (only : tree.children id = [image]) (foundImage : tree.element? image = some picture)
      (empty : tree.children image = []) : IsSizer tree id { holder, image? := some picture }

/-- The same elements with the same children make the same sizer. -/
theorem IsSizer.congr {before after : Tree} {id : NodeId} {sizer : Sizer}
    (isSizer : before.IsSizer id sizer)
    (same : ∀ node, node = id ∨ node ∈ before.children id → before.SameAt after node) :
    after.IsSizer id sizer := by
  obtain ⟨sameElement, sameChildren⟩ := same id (.inl rfl)
  cases isSizer with
  | bare found empty => exact .bare (sameElement.trans found) (sameChildren.trans empty)
  | @holding holder picture image found only foundImage empty =>
      obtain ⟨sameImage, sameInside⟩ := same image (.inr (by simp [only]))
      exact .holding (sameElement.trans found) (sameChildren.trans only)
        (sameImage.trans foundImage) (sameInside.trans empty)

theorem IsSizer.childless {tree : Tree} {id node : NodeId} {sizer : Sizer}
    (isSizer : tree.IsSizer id sizer) (member : node ∈ tree.children id) :
    tree.children node = [] := by
  cases isSizer with
  | bare _ empty =>
      rw [empty] at member
      exact absurd member List.not_mem_nil
  | holding _ only _ empty =>
      rw [only] at member
      rwa [List.mem_singleton.mp member]

theorem IsSizer.lt_size {tree : Tree} {id node : NodeId} {sizer : Sizer}
    (isSizer : tree.IsSizer id sizer) (part : node = id ∨ node ∈ tree.children id) :
    node < tree.size := by
  cases isSizer with
  | bare found empty =>
      rw [empty] at part
      obtain rfl : node = id := by simpa using part
      exact lt_size_of_element? found
  | holding found only foundImage =>
      rw [only, List.mem_singleton] at part
      rcases part with rfl | rfl
      · exact lt_size_of_element? found
      · exact lt_size_of_element? foundImage

end Tree

namespace LayoutBox

section Sizers

variable {tree : Tree} {id : NodeId} {box : LayoutBox}

/-- A sizer that has been created is new, with what is in it, and detached. -/
structure Created (tree : Tree) (sizer : Sizer) (created : NodeId × Tree) : Prop where
  isNew : tree.size ≤ created.1
  newInside : ∀ node ∈ created.2.children created.1, tree.size ≤ node
  parentless : created.2.parent? created.1 = none
  isSizer : created.2.IsSizer created.1 sizer

/-- A new element is alone. -/
theorem createElement_created (tree : Tree) (tag : String) (pairs : List (String × String)) :
    Created tree { holder := Element.ofPairs tag pairs } (tree.createElement tag pairs) := by
  have alone : (tree.createElement tag pairs).2.children tree.size = [] :=
    (Tree.children_create _).trans (Tree.children_of_size_le (Nat.le_refl _))
  refine ⟨Nat.le_refl _, fun node member => ?_, ?_, .bare ?_ alone⟩
  · exact absurd (alone ▸ member) List.not_mem_nil
  · exact (Tree.parent?_create _).trans (Tree.parent?_of_size_le (Nat.le_refl _))
  · exact Tree.element?_create_self tree _

/-- The image, which has no children, and its sizer are created one after the other, and
then the image comes into the sizer. -/
theorem createImageSizer_placed (forest : tree.Forest) (width height : Magnitude) :
    let pictured := (tree.createElement "img" [("alt", ""), ("aria-hidden", "true"),
      ("class", "i-amphtml-intrinsic-sizer"), ("role", "presentation"),
      ("src", emptyImage (wholePixels width) (wholePixels height))]).2
    let both := (pictured.createElement sizerTag [("class", sizerTag)]).2
    both.children tree.size = [] ∧
      ∃ after, createImageSizer tree width height = (pictured.size, after) ∧
        Tree.Placed both after pictured.size tree.size (· ++ [tree.size]) := by
  intro pictured both
  have bothForest : both.Forest := (forest.congr (.create tree _)).congr (.create pictured _)
  have sizes : pictured.size = tree.size + 1 := Tree.size_create _
  have apart : tree.size ≠ pictured.size := by omega
  have imageEmpty : both.children tree.size = [] := by
    refine (Tree.children_create _).trans ((Tree.children_create _).trans ?_)
    exact Tree.children_of_size_le (Nat.le_refl _)
  have holderInside : pictured.size < both.size := Tree.lt_size_create _
  obtain ⟨after, done, placed⟩ := bothForest.place?_spec holderInside
    (by omega : tree.size < both.size)
    (bothForest.mayPlace_of_childless (Ne.symm apart) imageEmpty) (· ++ [tree.size])
  exact ⟨imageEmpty, after,
    congrArg (Prod.mk pictured.size) (congrArg (Option.getD · both) done), placed⟩

/-- The sizer with an image in it. -/
theorem createImageSizer_created (forest : tree.Forest) (width height : Magnitude) :
    Created tree
      { holder := Element.ofPairs sizerTag [("class", sizerTag)]
        image? := some (Element.ofPairs "img"
          [("alt", ""), ("aria-hidden", "true"), ("class", "i-amphtml-intrinsic-sizer"),
            ("role", "presentation"),
            ("src", emptyImage (wholePixels width) (wholePixels height))]) }
      (createImageSizer tree width height) := by
  let pairs := [("alt", ""), ("aria-hidden", "true"), ("class", "i-amphtml-intrinsic-sizer"),
    ("role", "presentation"), ("src", emptyImage (wholePixels width) (wholePixels height))]
  let pictured := (tree.createElement "img" pairs).2
  let both := (pictured.createElement sizerTag [("class", sizerTag)]).2
  have holder := createElement_created pictured sizerTag [("class", sizerTag)]
  have sizes : pictured.size = tree.size + 1 := Tree.size_create _
  have apart : tree.size ≠ pictured.size := by omega
  have holderEmpty : both.children pictured.size = [] :=
    (Tree.children_create _).trans (Tree.children_of_size_le (Nat.le_refl _))
  obtain ⟨imageEmpty, after, result, placed⟩ : both.children tree.size = [] ∧ ∃ after,
      createImageSizer tree width height = (pictured.size, after) ∧
        Tree.Placed both after pictured.size tree.size (· ++ [tree.size]) :=
    createImageSizer_placed forest width height
  have only : after.children pictured.size = [tree.size] := by
    rw [placed.children, if_pos rfl, holderEmpty]
    rfl
  rw [result]
  refine ⟨by omega, fun node member => ?_, ?_, .holding ?_ only ?_ ?_⟩
  · rw [only] at member
    exact Nat.le_of_eq (List.mem_singleton.mp member).symm
  · rw [placed.parent?, if_neg (Ne.symm apart)]
    exact holder.parentless
  · rw [Tree.element?_congr (placed.kind? _)]
    exact Tree.element?_create_self pictured _
  · rw [Tree.element?_congr (placed.kind? _)]
    exact (Tree.element?_create_of_ne apart).trans (Tree.element?_create_self tree _)
  · rw [placed.children, if_neg apart, imageEmpty]
    rfl

/-- A box creates its sizer, or none. -/
theorem createSizer?_spec (forest : tree.Forest) (box : LayoutBox) :
    match box.sizer? with
    | none => box.createSizer? tree = none
    | some sizer =>
      ∃ created, box.createSizer? tree = some created ∧ Created tree sizer created := by
  unfold sizer? createSizer?
  cases parts : box.ratioParts? with
  | none => rfl
  | some sizes =>
      obtain ⟨width, height⟩ := sizes
      cases layout : box.layout with
      | responsive => exact ⟨_, rfl, createElement_created tree sizerTag _⟩
      | intrinsic => exact ⟨_, rfl, createImageSizer_created forest width height⟩
      | nodisplay | fixed | fixedHeight | container | fill | flexItem | fluid => rfl

/-- Sizers and their images are neither styles nor heads. -/
theorem sizer?_isTagged {sizer : Sizer} {node : NodeId} (chosen : box.sizer? = some sizer)
    (isSizer : tree.IsSizer id sizer) (part : node = id ∨ node ∈ tree.children id) :
    tree.isTagged node "style" = false ∧ tree.isTagged node "head" = false := by
  have tags : ∀ {tag : String} (pairs : List (String × String)),
      Ascii.sameName (Ascii.lower tag) "style" = false →
      Ascii.sameName (Ascii.lower tag) "head" = false →
      tree.element? node = some (Element.ofPairs tag pairs) →
      tree.isTagged node "style" = false ∧ tree.isTagged node "head" = false := by
    intro tag pairs noStyle noHead found
    rw [Tree.isTagged_of_element? found, Tree.isTagged_of_element? found]
    exact ⟨noStyle, noHead⟩
  obtain ⟨⟨width, height⟩, -, made⟩ := Option.bind_eq_some_iff.mp chosen
  cases layout : box.layout with
  | responsive =>
      simp only [layout, Option.some.injEq] at made
      subst made
      cases isSizer with
      | bare found empty =>
          rw [empty] at part
          obtain rfl : node = id := by simpa using part
          exact tags _ (by with_unfolding_all decide) (by with_unfolding_all decide) found
  | intrinsic =>
      simp only [layout, Option.some.injEq] at made
      subst made
      cases isSizer with
      | holding found only foundImage =>
          rw [only] at part
          rcases part with rfl | inside
          · exact tags _ (by with_unfolding_all decide) (by with_unfolding_all decide) found
          · obtain rfl := List.mem_singleton.mp inside
            exact tags _ (by with_unfolding_all decide) (by with_unfolding_all decide) foundImage
  | nodisplay | fixed | fixedHeight | container | fill | flexItem | fluid =>
      simp [layout] at made

end Sizers

end LayoutBox

/-! ## Applying -/

/-- A node has the given children, behind a sizer if there is to be one. The sizer and
what is in it are among the nodes from a bound on. -/
inductive Tree.Fronted (tree : Tree) (id : NodeId) (bound : Nat) (children : List NodeId) :
    Option Sizer → Prop where
  | without (listed : tree.children id = children) : Fronted tree id bound children none
  | behind {sizer : Sizer} {front : NodeId} (listed : tree.children id = front :: children)
      (isNew : bound ≤ front) (newInside : ∀ node ∈ tree.children front, bound ≤ node)
      (isSizer : tree.IsSizer front sizer) : Fronted tree id bound children (some sizer)

theorem Tree.Fronted.mono {tree : Tree} {id : NodeId} {bound smaller : Nat}
    {children : List NodeId} {sizer? : Option Sizer}
    (fronted : tree.Fronted id bound children sizer?) (le : smaller ≤ bound) :
    tree.Fronted id smaller children sizer? := by
  cases fronted with
  | without listed => exact .without listed
  | behind listed isNew newInside isSizer =>
      exact .behind listed (Nat.le_trans le isNew)
        (fun node member => Nat.le_trans le (newInside node member)) isSizer

namespace LayoutBox

section Applying

variable {tree : Tree} {id : NodeId} {tag : String} {attributes : Attributes}

/-- A sizer that has been created comes in front of the children of a node of the store. -/
theorem Created.put {sizer : Sizer} {created : NodeId × Tree}
    (isCreated : Created tree sizer created) (forest : tree.Forest) (inside : id < tree.size)
    (creates : Tree.Creates ⟨fun _ => False, fun _ => False⟩ Element.Plain tree created) :
    ∃ after, created.2.prepend? id created.1 = some after ∧
      after.element? id = tree.element? id ∧
      after.Fronted id tree.size (tree.children id) (some sizer) := by
  have grows := creates.grows
  have apart : ∀ {node}, tree.size ≤ node → node ≠ id := by
    intro node isNew
    exact Nat.ne_of_gt (Nat.lt_of_lt_of_le inside isNew)
  have may : created.2.mayPlace id created.1 = true := by
    refine grows.forest.mayPlace_iff.mpr ⟨(apart isCreated.isNew).symm, fun below => ?_⟩
    rw [grows.below_iff forest inside] at below
    exact Nat.not_lt_of_le isCreated.isNew (forest.ancestor_lt below)
  obtain ⟨after, done, put⟩ := grows.forest.prepend?_spec
    (Nat.lt_of_lt_of_le inside grows.size_le) creates.inside may isCreated.parentless
  have sameChildren : ∀ {node}, tree.size ≤ node →
      after.children node = created.2.children node := by
    intro node isNew
    rw [put.children, if_neg (apart isNew)]
  refine ⟨after, done, ?_, .behind ?_ isCreated.isNew ?_ (isCreated.isSizer.congr ?_)⟩
  · rw [Tree.element?_congr (put.kind? id), grows.element? inside not_false]
  · rw [put.children, if_pos rfl, grows.children inside not_false]
  · rw [sameChildren isCreated.isNew]
    exact isCreated.newInside
  · intro node part
    refine ⟨Tree.element?_congr (put.kind? node), sameChildren ?_⟩
    rcases part with rfl | member
    · exact isCreated.isNew
    · exact isCreated.newInside node member

/-- An audio player is left alone. -/
theorem applyTo_of_audio (isAudio : tree.isTagged id audioTag = true) (box : LayoutBox) :
    box.applyTo tree id = tree := by
  rw [applyTo, applyTo?, if_pos isAudio, Option.getD_some]

/-- What applying a box does to its element. -/
theorem applyTo_spec (forest : tree.Forest) (found : tree.element? id = some ⟨tag, attributes⟩)
    (noAudio : tree.isTagged id audioTag = false) (box : LayoutBox) :
    (box.applyTo tree id).element? id = some ⟨tag, box.written attributes⟩ ∧
      (box.applyTo tree id).Fronted id tree.size (tree.children id) box.sizer? := by
  have inside : id < tree.size := Tree.lt_size_of_element? found
  obtain ⟨links, size⟩ := Tree.writeAttributes_sameLinks tree id box
  have writtenForest := forest.congr links
  have written := Tree.element?_writeAttributes found box
  have creates := createSizer?_spec writtenForest box
  unfold applyTo applyTo?
  rw [if_neg (by simp [noAudio])]
  dsimp only
  cases chosen : box.sizer? with
  | none =>
      rw [chosen] at creates
      dsimp only at creates
      rw [creates]
      exact ⟨written, .without (links.children id)⟩
  | some sizer =>
      rw [chosen] at creates
      obtain ⟨created, made, spec⟩ := creates
      have creates : Tree.Creates ⟨fun _ => False, fun _ => False⟩ Element.Plain
          (box.writeAttributes tree id) created :=
        createSizer?_creates allowsSizers_plain writtenForest (.refl writtenForest) made
      obtain ⟨after, done, sameElement, fronted⟩ :=
        spec.put writtenForest (Nat.lt_of_lt_of_eq inside size.symm) creates
      rw [made]
      dsimp only
      rw [done, Option.getD_some, sameElement]
      rw [size, links.children] at fronted
      exact ⟨written, fronted⟩

/-- A layout leaves all other attributes of its element alone. -/
theorem attribute?_applyTo (forest : tree.Forest)
    (found : tree.element? id = some ⟨tag, attributes⟩) (box : LayoutBox) {name : String}
    (apart : Ascii.lower name ∉ writtenNames) :
    (box.applyTo tree id).attribute? id name = tree.attribute? id name := by
  cases isAudio : tree.isTagged id audioTag with
  | true => rw [applyTo_of_audio isAudio]
  | false =>
      rw [Tree.attribute?_of_element? (applyTo_spec forest found isAudio box).1,
        Tree.attribute?_of_element? found]
      exact get?_written_of_apart box attributes apart

end Applying

end LayoutBox

end FirstPaint
