import FirstPaint.Proofs.Layout.Fronting

/-!
# Applying a layout only adds

A layout adds to its element and takes nothing away. Of the attributes it writes four
(`writtenNames`), and each of the others keeps its value and its place among them
(`Attributes.unwritten`). The classes that are there stay in front of those that come
(`tokens_joinedClass`), the style that is there stays behind the declarations that come, and an
element is hidden by no layout but one (`LayoutBox.Decorates`).

Of the nodes only the element changes, and its children stay, in their order, behind a new sizer if
there is to be one (`LayoutBox.Adds`). There is to be one exactly if the layout keeps a ratio that
the box can say (`LayoutBox.NeedsSizer`).
-/

set_option autoImplicit false

namespace FirstPaint

/-! ## Tokens -/

/-- The parts of a value that white space divides. -/
def tokens (value : String) : List (List Char) :=
  (value.toList.splitOnP Ascii.isWhitespace).filter fun part => !part.isEmpty

theorem tokens_append_space (before after : String) :
    tokens (before ++ " " ++ after) = tokens before ++ tokens after := by
  have joined : (before ++ " " ++ after).toList = before.toList ++ ' ' :: after.toList := by simp
  rw [tokens, joined, List.splitOnP_append_cons _ _ (by decide : Ascii.isWhitespace ' ' = true),
    List.filter_append]
  rfl

/-- A class comes behind the classes that are present. -/
theorem tokens_joinedClass (present? : Option String) (cssClass : String) :
    tokens (joinedClass present? cssClass) = tokens (present?.getD "") ++ tokens cssClass := by
  unfold joinedClass
  split
  next empty =>
    have none : tokens "" = [] := by decide
    rw [String.isEmpty_iff.mp empty, none, List.nil_append]
  next => exact tokens_append_space _ _

theorem tokens_cssClass (layout : Layout) : tokens layout.cssClass = [layout.cssClass.toList] := by
  cases layout <;> decide

theorem tokens_sizedClass : tokens Layout.sizedClass = [Layout.sizedClass.toList] := by
  decide

namespace Attributes

variable {attributes : Attributes}

/-- The classes of an element, in order. -/
def classTokens (attributes : Attributes) : List (List Char) :=
  tokens ((attributes.get? "class").getD "")

/-! ## Attributes that a layout does not write -/

/-- The attributes under the names that a layout does not write, in order. -/
def unwritten (attributes : Attributes) : List Attribute :=
  attributes.toList.filter fun entry => !writtenNames.contains entry.name

theorem filter_insertEntry {keep : Attribute → Bool} {entry : Attribute} {list : List Attribute}
    (dropped : ∀ other : Attribute, other.name = entry.name → keep other = false) :
    (insertEntry entry list).filter keep = list.filter keep := by
  induction list with
  | nil => simp [insertEntry, dropped entry rfl]
  | cons first rest ih =>
      unfold insertEntry
      split
      next same =>
        rw [List.filter_cons_of_neg (by simp [dropped entry rfl]),
          List.filter_cons_of_neg (by simp [dropped first same])]
      next => rw [List.filter_cons, List.filter_cons, ih]

/-- A name that is written leaves the others where they are. -/
theorem unwritten_insert {name : String} (listed : writtenNames.contains (Ascii.lower name) = true)
    (value : String) : (attributes.insert name value).unwritten = attributes.unwritten := by
  refine filter_insertEntry fun other same => ?_
  rw [same, listed]
  rfl

end Attributes

namespace LayoutBox

/-- The classes that a box brings. -/
def addedClasses (box : LayoutBox) : List String :=
  box.layout.cssClass :: if box.layout.definesSize then [Layout.sizedClass] else []

theorem tokens_classes (box : LayoutBox) (present? : Option String) :
    tokens (box.classes present?) =
      tokens (present?.getD "") ++ box.addedClasses.map String.toList := by
  unfold classes addedClasses
  dsimp only
  split
  next =>
    rw [tokens_joinedClass, Option.getD_some, tokens_joinedClass, tokens_cssClass,
      tokens_sizedClass, List.append_assoc]
    rfl
  next =>
    rw [tokens_joinedClass, tokens_cssClass]
    rfl

/-- Each step of writing writes one of the names. -/
theorem unwritten_written (box : LayoutBox) (attributes : Attributes) :
    (box.written attributes).unwritten = attributes.unwritten := by
  have ofClass : ∀ (attributes : Attributes) (cssClass : String),
      (attributes.withClass cssClass).unwritten = attributes.unwritten :=
    fun _ _ => Attributes.unwritten_insert (by with_unfolding_all decide) _
  have ofStyle : ∀ attributes : Attributes,
      (attributes.prependStyle box.declarations).unwritten = attributes.unwritten := by
    intro attributes
    unfold Attributes.prependStyle
    dsimp only
    split
    next => rfl
    next => exact Attributes.unwritten_insert (by with_unfolding_all decide) _
  rw [written, Attributes.unwritten_insert (by with_unfolding_all decide), ofStyle]
  -- What is left is hidden at most, over one class or two.
  have sized : (if box.layout.definesSize then
      (attributes.withClass box.layout.cssClass).withClass Layout.sizedClass
      else attributes.withClass box.layout.cssClass).unwritten = attributes.unwritten := by
    split
    next => rw [ofClass, ofClass]
    next => exact ofClass attributes _
  split
  next => rw [Attributes.unwritten_insert (by with_unfolding_all decide), sized]
  next => exact sized

/-- What a box leaves of the attributes of an element, and what it adds to them. -/
structure Decorates (box : LayoutBox) (before after : Attributes) : Prop where
  classes : after.classTokens = before.classTokens ++ box.addedClasses.map String.toList
  style : ∀ old, before.get? "style" = some old →
    after.get? "style" = some (box.declarations ++ old)
  styleless : before.get? "style" = none →
    after.get? "style" = if box.declarations = "" then none else some box.declarations
  hidden : after.get? "hidden" =
    if box.layout = .nodisplay then some "hidden" else before.get? "hidden"
  marker : after.get? layoutMarker = some box.layout.name
  others : after.unwritten = before.unwritten

theorem written_decorates (box : LayoutBox) (attributes : Attributes) :
    box.Decorates attributes (box.written attributes) where
  classes := by
    rw [Attributes.classTokens, (written_writes box attributes).classes, Option.getD_some,
      tokens_classes, Attributes.classTokens]
  style old present := by
    rw [(written_writes box attributes).style, present, style?, Option.getD_some]
    split
    next empty =>
      obtain ⟨noDeclarations, rfl⟩ := String.append_eq_empty_iff.mp (String.isEmpty_iff.mp empty)
      rw [noDeclarations, String.append_empty]
    next => rfl
  styleless absent := by
    rw [(written_writes box attributes).style, absent, style?, Option.getD_none,
      String.append_empty]
    simp only [String.isEmpty_iff]
  hidden := by simp only [(written_writes box attributes).hidden, hidden?, beq_iff_eq]
  marker := (written_writes box attributes).marker
  others := unwritten_written box attributes

/-! ## Sizers -/

section Sizers

variable {box : LayoutBox}

/-- The layout keeps the ratio of width and height, and the box can say it: both are numbers of the
same unit, and the width is positive. -/
inductive NeedsSizer (box : LayoutBox) : Prop
  | ratio {width height : Magnitude} {unit : MeasureUnit}
      (layout : box.layout = .responsive ∨ box.layout = .intrinsic)
      (isWidth : box.width = .measure width unit) (isHeight : box.height = .measure height unit)
      (positive : width.isZero = false)

theorem ratioParts?_eq_some_iff {width height : Magnitude} :
    box.ratioParts? = some (width, height) ↔ ∃ unit, box.width = .measure width unit ∧
      box.height = .measure height unit ∧ width.isZero = false := by
  unfold ratioParts?
  cases box.width with
  | undefined | auto | fluid => simp [Length.numeral?]
  | measure wide unit =>
      cases box.height with
      | undefined | auto | fluid => simp [Length.numeral?]
      | measure high otherUnit =>
          simp only [Length.numeral?, Option.bind_eq_bind, Option.bind_some]
          split
          next skipped => grind [Length.unit?]
          next kept => grind [Length.unit?]

theorem isSome_sizer?_iff : box.sizer?.isSome = true ↔ box.NeedsSizer := by
  constructor
  · intro isSome
    obtain ⟨sizer, chosen⟩ := Option.isSome_iff_exists.mp isSome
    obtain ⟨⟨width, height⟩, parts, made⟩ := Option.bind_eq_some_iff.mp chosen
    obtain ⟨unit, isWidth, isHeight, positive⟩ := ratioParts?_eq_some_iff.mp parts
    refine .ratio ?_ isWidth isHeight positive
    cases layout : box.layout with
    | responsive => exact .inl rfl
    | intrinsic => exact .inr rfl
    | nodisplay | fixed | fixedHeight | container | fill | flexItem | fluid => simp [layout] at made
  · rintro ⟨layout, isWidth, isHeight, positive⟩
    have parts := ratioParts?_eq_some_iff.mpr ⟨_, isWidth, isHeight, positive⟩
    rw [sizer?, parts]
    rcases layout with layout | layout
    · simp [layout]
    · simp [layout]

end Sizers

/-! ## Nodes -/

section Nodes

variable {tree after : Tree} {id other : NodeId} {box : LayoutBox}

/-- What a box leaves of a tree, and what it adds to the element it is applied to. -/
structure Adds (box : LayoutBox) (tree : Tree) (id : NodeId) (element : Element)
    (after : Tree) : Prop where
  element : ∃ attributes, after.element? id = some ⟨element.tag, attributes⟩ ∧
    box.Decorates element.attributes attributes
  parent : after.parent? id = tree.parent? id
  sized : box.NeedsSizer → ∃ front, tree.node? front = none ∧
    after.isTagged front sizerTag = true ∧ after.children id = front :: tree.children id
  unsized : ¬ box.NeedsSizer → after.children id = tree.children id
  others : ∀ other node, other ≠ id → tree.node? other = some node → after.node? other = some node

/-- Whatever happens, the old nodes stay where they are, and all but one stay what they are. -/
theorem Applied.kept (applied : Applied tree id box after) (inside : other < tree.size) :
    after.parent? other = tree.parent? other ∧
      (other ≠ id → after.node? other = tree.node? other) := by
  have rewritten := Tree.Rewritten.writeAttributes tree id box
  cases applied with
  | silent => exact ⟨rfl, fun _ => rfl⟩
  | written =>
      exact ⟨rewritten.parent? other, fun different => Tree.node?_congr
        (rewritten.kind? other different) (rewritten.parent? other) (rewritten.children other)⟩
  | sized fronts =>
      rw [← (Tree.writeAttributes_sameLinks tree id box).2] at inside
      have parent := (fronts.extended.parent? inside).trans (rewritten.parent? other)
      exact ⟨parent, fun different => Tree.node?_congr
        ((fronts.extended.kind? inside).trans (rewritten.kind? other different)) parent
        ((fronts.children inside different).trans (rewritten.children other))⟩

/-- Applying a box to a node of the store has a result. -/
theorem applyTo?_eq_some (forest : tree.Forest) (inside : id < tree.size) (box : LayoutBox) :
    box.applyTo? tree id = some (box.applyTo tree id) := by
  have found : ∃ after, box.applyTo? tree id = some after := by
    obtain ⟨links, size⟩ := Tree.writeAttributes_sameLinks tree id box
    have writtenForest := forest.congr links
    unfold applyTo?
    dsimp only
    split
    next => exact ⟨tree, rfl⟩
    next =>
      split
      next => exact ⟨_, rfl⟩
      next sizer created made =>
        have creates : Tree.Creates ⟨fun _ => False, fun _ => False⟩ Element.Plain
            (box.writeAttributes tree id) (sizer, created) :=
          createSizer?_creates allowsSizers_plain writtenForest (.refl writtenForest) made
        have stillInside := Nat.lt_of_lt_of_eq inside size.symm
        obtain ⟨after, done, -⟩ := creates.grows.forest.prepend?
          (Nat.lt_of_lt_of_le stillInside creates.grows.size_le) creates.inside
        exact ⟨after, done⟩
  obtain ⟨after, done⟩ := found
  rw [applyTo, done, Option.getD_some]

/-- **Applying a layout only adds**, and an audio player is left alone. -/
theorem applyTo_only_adds (reachable : tree.Reachable) {element : Element}
    (isElement : tree.element? id = some element) (box : LayoutBox) :
    (tree.isTagged id audioTag = true → box.applyTo? tree id = some tree) ∧
    (tree.isTagged id audioTag = false →
      ∃ after, box.applyTo? tree id = some after ∧ box.Adds tree id element after) := by
  have forest := reachable.forest
  have inside := Tree.lt_size_of_element? isElement
  have result := applyTo?_eq_some forest inside box
  constructor
  · intro isAudio
    rw [result, applyTo_of_audio isAudio]
  · intro noAudio
    obtain ⟨written, fronted⟩ := applyTo_spec forest isElement noAudio box
    have applied := applied forest inside box
    refine ⟨_, result, ⟨_, written, written_decorates box _⟩, (applied.kept inside).1, ?_, ?_, ?_⟩
    · intro needed
      obtain ⟨sizer, chosen⟩ := Option.isSome_iff_exists.mp (isSome_sizer?_iff.mpr needed)
      rw [chosen] at fronted
      cases fronted with
      | @behind _ front listed isNew _ isSizer =>
          exact ⟨front, (tree.node?_eq_none_iff front).mpr isNew,
            isTagged_of_isSizer chosen isSizer, listed⟩
    · intro notNeeded
      have none : box.sizer? = none := by
        rw [← Option.not_isSome_iff_eq_none, isSome_sizer?_iff]
        exact notNeeded
      rw [none] at fronted
      cases fronted with
      | without listed => exact listed
    · intro other node different found
      rw [(applied.kept (Tree.lt_size_of_node? found)).2 different, found]

end Nodes

end LayoutBox

/-- An image with classes, a style and a child, and an audio player behind it. -/
def Tree.posterTree : Tree :=
  Tree.built [
    .createElement "amp-img" [("width", "4"), ("class", " big\thero "), ("alt", "hills"),
      ("style", "color:red"), ("height", "3"), ("layout", "responsive")],
    .append root 1, .createElement "span" [], .append 1 2,
    .createElement "amp-audio" [("class", "loud")], .append root 3]

theorem LayoutBox.applyTo_only_adds_posterTree :
    let box : LayoutBox := ⟨.responsive, .px 4, .px 3⟩
    let natural : LayoutBox := ⟨.intrinsic, .px 4, .px 3⟩
    let fixed : LayoutBox := ⟨.fixed, .px 4, .px 3⟩
    LayoutBox.ofElement Tree.posterTree 1 false = .ok box ∧
      (∃ after front attributes, box.applyTo? Tree.posterTree 1 = some after ∧
        Tree.posterTree.node? front = none ∧ after.isTagged front sizerTag = true ∧
        after.children 1 = [front, 2] ∧ after.element? 1 = some ⟨"amp-img", attributes⟩ ∧
        attributes.get? "style" = some "color:red" ∧
        attributes.classTokens = ["big".toList, "hero".toList,
          "i-amphtml-layout-responsive".toList, "i-amphtml-layout-size-defined".toList] ∧
        attributes.unwritten = [⟨"width", "4"⟩, ⟨"alt", "hills"⟩, ⟨"height", "3"⟩,
          ⟨"layout", "responsive"⟩] ∧ after.node? 3 = Tree.posterTree.node? 3) ∧
      (box.applyTo Tree.posterTree 1).element? 4 =
        some ⟨sizerTag, ⟨[⟨"style", "display:block;padding-top:75.0000%;"⟩]⟩⟩ ∧
      (natural.applyTo Tree.posterTree 1).attribute? 4 "src" =
        some ("data:image/svg+xml;charset=utf-8,<svg height=\"3\" width=\"4\" " ++
          "xmlns=\"http://www.w3.org/2000/svg\" version=\"1.1\"/>") ∧
      (fixed.applyTo Tree.posterTree 1).attribute? 1 "style" =
        some "width:4px;height:3px;color:red" ∧
      box.applyTo? Tree.posterTree 3 = some Tree.posterTree := by
  intro box natural fixed
  have reachable : Tree.posterTree.Reachable := by
    unfold Tree.posterTree
    exact Tree.reachable_built (by decide +kernel)
  have image : Tree.posterTree.element? 1 = some ⟨"amp-img", ⟨[⟨"width", "4"⟩,
      ⟨"class", " big\thero "⟩, ⟨"alt", "hills"⟩, ⟨"style", "color:red"⟩, ⟨"height", "3"⟩,
      ⟨"layout", "responsive"⟩]⟩⟩ := by
    decide +kernel
  have player : Tree.posterTree.element? 3 = some ⟨"amp-audio", ⟨[⟨"class", "loud"⟩]⟩⟩ := by
    decide +kernel
  have needed : box.NeedsSizer := .ratio (.inl rfl) rfl rfl (by decide +kernel)
  obtain ⟨after, done, adds⟩ := (applyTo_only_adds reachable image box).2 (by decide +kernel)
  obtain ⟨attributes, found, decorates⟩ := adds.element
  obtain ⟨front, isNew, isSizer, listed⟩ := adds.sized needed
  have inside : Tree.posterTree.children 1 = [2] := by decide +kernel
  rw [inside] at listed
  refine ⟨by decide +kernel, ⟨after, front, attributes, done, isNew, isSizer, listed, found,
    decorates.style "color:red" (by decide +kernel), ?_, ?_, ?_⟩,
    by decide +kernel, by decide +kernel, by decide +kernel,
    (applyTo_only_adds reachable player box).1 (by decide +kernel)⟩
  · rw [decorates.classes]
    decide +kernel
  · rw [decorates.others]
    decide +kernel
  · rw [adds.others 3 ⟨.element ⟨"amp-audio", ⟨[⟨"class", "loud"⟩]⟩⟩, some 0, []⟩ (by decide)
      (by decide +kernel)]
    decide +kernel

end FirstPaint
