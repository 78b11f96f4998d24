import FirstPaint.Proofs.Layout.Writing
import FirstPaint.Proofs.Stylesheet.Measuring

/-!
# What a layout adds to the author styles

A layout writes declarations in front of the style attribute of its element, and it may
place a sizer before the children, which can carry a style attribute of its own. Both
amounts are known from the box alone (`LayoutBox.styleSize`). No budget is asked.

The measured sizes follow from what such edits do to single nodes. The attributes of one
element are written anew (`Rewritten.inlined`), and new elements come below a parent, of
which at most one has a style attribute (`Brings`). Either way the custom stylesheet keeps
its place and its size, and the style attributes of the body grow by a known amount
(`Inlined`).
-/

set_option autoImplicit false

namespace FirstPaint

/-- An element that is given no style has none. -/
theorem Element.styleSize_ofPairs {pairs : List (String × String)}
    (absent : ∀ pair ∈ pairs, Ascii.lower pair.1 ≠ Ascii.lower "style") (tag : String) :
    (Element.ofPairs tag pairs).styleSize = 0 := by
  rw [styleSize, ofPairs, Attributes.get?_ofList_of_absent absent]
  rfl

namespace Tree

/-- The custom stylesheet is what it was, and the style attributes of the body have come
to some bytes more at most. -/
structure Inlined (before after : Tree) (bytes : Nat) : Prop where
  forest : after.Forest
  customStyle? : after.customStyle? = before.customStyle?
  stylesheetSize : after.stylesheetSize = before.stylesheetSize
  kept : before.inlineStyleSize ≤ after.inlineStyleSize
  grown : after.inlineStyleSize ≤ before.inlineStyleSize + bytes

theorem Inlined.trans {before middle after : Tree} {bytes more : Nat}
    (earlier : Inlined before middle bytes) (later : Inlined middle after more) :
    Inlined before after (bytes + more) where
  forest := later.forest
  customStyle? := later.customStyle?.trans earlier.customStyle?
  stylesheetSize := later.stylesheetSize.trans earlier.stylesheetSize
  kept := Nat.le_trans earlier.kept later.kept
  grown := by
    rw [← Nat.add_assoc]
    exact Nat.le_trans later.grown (Nat.add_le_add_right earlier.grown more)

theorem Weighed.inlined {before after : Tree} {id : NodeId} {inline bytes : Nat}
    (weighed : Weighed before after id 0 inline)
    (bound : after.inBody id = true → inline ≤ bytes) : Inlined before after bytes where
  forest := weighed.forest
  customStyle? := weighed.customStyle?
  stylesheetSize := by rw [weighed.stylesheetSize, ite_self, Nat.add_zero]
  kept := by
    rw [weighed.inlineStyleSize]
    exact Nat.le_add_right _ _
  grown := by
    rw [weighed.inlineStyleSize]
    refine Nat.add_le_add_left ?_ _
    split
    next inside => exact bound inside
    next => exact Nat.zero_le _

theorem Forest.inBody_iff {tree : Tree} (forest : tree.Forest) {id : NodeId} :
    tree.inBody id = true ↔ ∃ body, tree.body? = some body ∧ tree.Below id body := by
  rw [inBody, Option.any_eq_true]
  refine exists_congr fun body => and_congr_right fun _ => ?_
  rw [List.contains_iff_mem, forest.mem_descendants_iff]

/-! ## Attributes of one element -/

namespace Rewritten

variable {before middle after : Tree} {id : NodeId}

theorem refl (tree : Tree) (id : NodeId) : Rewritten tree tree id :=
  ⟨.refl tree, fun _ _ => rfl, rfl⟩

theorem modifyAttributes (rewritten : Rewritten before middle id)
    (change : Attributes → Attributes) :
    Rewritten before (middle.modifyAttributes id change) id where
  toSameLinks := rewritten.toSameLinks.trans (.modifyAttributes middle id change)
  kind? other different := by
    rw [kind?_modifyAttributes_of_ne change different, rewritten.kind? other different]
  tag? := by
    rw [← rewritten.tag?, Tree.tag?, element?_modifyAttributes, if_pos rfl, Option.map_map]
    rfl

theorem setAttribute (rewritten : Rewritten before middle id) (name value : String) :
    Rewritten before (middle.setAttribute id name value) id :=
  rewritten.modifyAttributes _

theorem eraseAttribute (rewritten : Rewritten before middle id) (name : String) :
    Rewritten before (middle.eraseAttribute id name) id :=
  rewritten.modifyAttributes _

/-- The counters are no part of what is read. -/
theorem of_nodes (same : after.nodes = before.nodes) : Rewritten before after id := by
  have kinds : ∀ other, after.kind? other = before.kind? other := fun other => by
    simp only [Tree.kind?, node?, same]
  exact ⟨.of_nodes same, fun other _ => kinds other, tag?_congr (kinds id)⟩

theorem eraseFound (tree : Tree) (id : NodeId) (found : List FoundStyle) :
    Rewritten tree (eraseFound tree id found) id := by
  have steps : ∀ {middle : Tree}, Rewritten tree middle id →
      Rewritten tree (FirstPaint.eraseFound middle id found) id := by
    induction found with
    | nil => exact fun rewritten => rewritten
    | cons entry rest ih => exact fun rewritten => ih (rewritten.eraseAttribute entry.name)
  exact steps (.refl tree id)

theorem ensureId (tree : Tree) (id : NodeId) : Rewritten tree (tree.ensureId id).2 id := by
  unfold Tree.ensureId
  split
  next => exact .refl tree id
  next => exact (of_nodes (freshId_nodes _ tree)).setAttribute "id" _

theorem prependStyle (rewritten : Rewritten before middle id) (declarations : String) :
    Rewritten before (middle.prependStyle id declarations) id := by
  unfold Tree.prependStyle
  dsimp only
  split
  next => exact rewritten
  next => exact rewritten.setAttribute "style" _

theorem writeAttributes (tree : Tree) (id : NodeId) (box : LayoutBox) :
    Rewritten tree (box.writeAttributes tree id) id := by
  have classed : Rewritten tree (tree.withClass id box.layout.cssClass) id :=
    (refl tree id).setAttribute "class" _
  have sized : Rewritten tree
      (if box.layout.definesSize then
        (tree.withClass id box.layout.cssClass).withClass id Layout.sizedClass
      else tree.withClass id box.layout.cssClass) id := by
    split
    next => exact classed.setAttribute "class" _
    next => exact classed
  unfold LayoutBox.writeAttributes
  refine (prependStyle ?_ box.declarations).setAttribute layoutMarker _
  split
  next => exact sized.setAttribute "hidden" "hidden"
  next => exact sized

/-- Writing attributes anew drops no node. -/
theorem size_le (rewritten : Rewritten before after id)
    (isElement : (before.tag? id).isSome = true) : before.size ≤ after.size := by
  refine Nat.le_of_not_lt fun dropped => ?_
  have missing : after.kind? after.size = none := kind?_of_size_le (Nat.le_refl _)
  by_cases same : after.size = id
  · rw [← rewritten.tag?, ← same, Tree.tag?, Tree.element?, missing] at isElement
    exact absurd isElement (by simp)
  · obtain ⟨node, found⟩ := before.node?_eq_some_of_lt dropped
    rw [rewritten.kind? _ same, Tree.kind?, found] at missing
    exact absurd missing (by simp)

theorem inBody (rewritten : Rewritten before after id) (forest : before.Forest) (other : NodeId) :
    after.inBody other = before.inBody other := by
  rw [Tree.inBody, Tree.inBody, body?_congr rewritten.parts.2]
  refine congrArg (Option.any · before.body?) (funext fun body => ?_)
  rw [forest.descendants_congr (forest.congr rewritten.toSameLinks)
    fun node _ => rewritten.children node]

/-- An element that is no style may get a longer style attribute. -/
theorem inlined (rewritten : Rewritten before after id) (forest : before.Forest)
    {element : Element} {more : Nat} (isElement : before.element? id = some element)
    (noStyle : Ascii.sameName element.tag "style" = false)
    (inlineSize : after.inlineSize id = before.inlineSize id + more) :
    Inlined before after (if before.inBody id then more else 0) := by
  have tagged : before.tag? id = some element.tag := by
    rw [Tree.tag?, isElement, Option.map_some]
  obtain ⟨other, later, sameTag⟩ := Option.map_eq_some_iff.mp (rewritten.tag?.trans tagged)
  obtain ⟨contentBefore, -, markedBefore⟩ := readings_of_element? isElement
  obtain ⟨contentAfter, -, markedAfter⟩ := readings_of_element? later
  have weighed : Weighed before after id 0 more := by
    refine rewritten.weighed forest ?_ (contentAfter.trans contentBefore.symm) inlineSize
    rw [markedBefore, markedAfter, Element.isCustomStyle, Element.isCustomStyle, sameTag, noStyle,
      Bool.false_and, Bool.false_and]
  refine weighed.inlined fun inside => ?_
  rw [rewritten.inBody forest] at inside
  rw [if_pos inside]

/-- The style attribute is not among those that change. -/
theorem unstyled (rewritten : Rewritten before after id) (forest : before.Forest)
    {element : Element} (isElement : before.element? id = some element)
    (noStyle : Ascii.sameName element.tag "style" = false)
    (same : after.attribute? id "style" = before.attribute? id "style") :
    Inlined before after 0 := by
  have noMore : after.inlineSize id = before.inlineSize id + 0 := by
    rw [inlineSize, inlineSize, same, Nat.add_zero]
  have inlined := rewritten.inlined forest isElement noStyle noMore
  rwa [ite_self] at inlined

end Rewritten

/-! ## New elements -/

/-- New elements have come into a tree. None is a custom stylesheet, and at most one of
them has a style attribute. -/
structure Brings (before after : Tree) (holder : NodeId) (bytes : Nat) : Prop where
  extended : Extended before after
  isNew : before.size ≤ holder
  inside : holder < after.size
  inlineSize : after.inlineSize holder = bytes
  rest : ∀ {id}, before.size ≤ id → id ≠ holder → after.inlineSize id = 0
  plain : ∀ {id}, before.size ≤ id →
    after.contentSize id = 0 ∧ after.isStyleMarked id customStyleMarker = false

theorem createElement_brings {tree : Tree} (forest : tree.Forest) (tag : String)
    (pairs : List (String × String)) (noStyle : (Element.ofPairs tag pairs).isCustomStyle = false) :
    Brings tree (tree.createElement tag pairs).2 tree.size
      (Element.ofPairs tag pairs).styleSize := by
  obtain ⟨size, inline, unmarked⟩ :=
    readings_of_element? (element?_create_self tree (Element.ofPairs tag pairs))
  have missing : ∀ {id}, tree.size ≤ id → id ≠ tree.size →
      (tree.createElement tag pairs).2.kind? id = none := by
    intro id isNew different
    rw [createElement, kind?_create, if_neg different, kind?_of_size_le isNew]
  refine
    { extended := (Extended.refl forest).create _
      isNew := Nat.le_refl _
      inside := lt_size_create _
      inlineSize := inline
      rest := fun isNew different => (readings_of_missing (missing isNew different)).2.1
      plain := fun {id} isNew => ?_ }
  by_cases same : id = tree.size
  · rw [same]
    exact ⟨size, unmarked.trans noStyle⟩
  · obtain ⟨content, -, marked⟩ := readings_of_missing (missing isNew same)
    exact ⟨content, marked⟩

section Brings

variable {before middle after : Tree} {holder parent : NodeId} {bytes : Nat}

/-- What has come is brought below a parent, in front of its children. -/
theorem Brings.prepend? (brings : Brings before middle holder bytes) (forest : before.Forest)
    (inside : parent < before.size) (parentless : middle.parent? holder = none) :
    ∃ after, middle.prepend? parent holder = some after ∧ Brings before after holder bytes ∧
      PutFirst middle after parent holder := by
  have extended := brings.extended
  have may : middle.mayPlace parent holder = true := by
    refine extended.forest.mayPlace_iff.mpr
      ⟨Nat.ne_of_lt (Nat.lt_of_lt_of_le inside brings.isNew), fun below => ?_⟩
    rw [extended.grows.below_iff forest inside] at below
    exact Nat.not_lt_of_le brings.isNew (forest.ancestor_lt below)
  obtain ⟨after, done, put⟩ := extended.forest.prepend?_spec
    (Nat.lt_of_lt_of_le inside extended.size_le) brings.inside may parentless
  have inlines : ∀ id, after.inlineSize id = middle.inlineSize id :=
    fun id => inlineSize_congr (element?_congr (put.kind? id))
  refine ⟨after, done, ?_, put⟩
  refine
    { extended := extended.putFirst brings.isNew put
      isNew := brings.isNew
      inside := Nat.lt_of_lt_of_eq brings.inside put.size.symm
      inlineSize := (inlines holder).trans brings.inlineSize
      rest := fun isNew different => (inlines _).trans (brings.rest isNew different)
      plain := fun {id} isNew => ?_ }
  rw [contentSize_congr (put.kind? id), isStyleMarked_congr (put.kind? id)]
  exact brings.plain isNew

/-- New elements in front of the children of a node that is neither the document nor the
html element nor the body. -/
theorem Brings.inlined (brings : Brings before after holder bytes) (forest : before.Forest)
    (put : PutFirst middle after parent holder)
    (same : ∀ {id}, id < before.size → middle.children id = before.children id)
    (inside : parent < before.size) (noRoot : parent ≠ root)
    (noHtml : ∀ {html}, before.html? = some html → parent ≠ html)
    (noBody : before.body? ≠ some parent) :
    Inlined before after (if before.inBody parent then bytes else 0) := by
  have children : ∀ {id}, id < before.size → parent ≠ id →
      after.children id = before.children id := by
    intro id old different
    rw [put.children, if_neg (Ne.symm different), same old]
  have htmlSame : ∀ {html}, before.html? = some html →
      after.children html = before.children html :=
    fun found => children (lt_size_of_isTagged (html?_eq_some_iff.mp found).2) (noHtml found)
  have weighed := brings.extended.weighed forest (children (Nat.zero_lt_of_lt inside) noRoot)
    htmlSame brings.isNew (fun other isNew => (brings.plain isNew).2)
    fun other isNew different => ⟨(brings.plain isNew).1, brings.rest isNew different⟩
  rw [(brings.plain brings.isNew).1, brings.inlineSize] at weighed
  refine weighed.inlined fun holderInside => ?_
  -- The new node is below the body exactly if its parent is, which is not the body.
  obtain ⟨body, found, below⟩ := weighed.forest.inBody_iff.mp holderInside
  have link : after.parent? holder = some parent := by rw [put.parent?, if_pos rfl]
  rw [weighed.body?] at found
  rcases (below_iff_of_parent? link).mp below with rfl | above
  · exact absurd found noBody
  · rw [brings.extended.grows.below_iff forest inside] at above
    rw [if_pos (forest.inBody_iff.mpr ⟨body, found, above⟩)]

end Brings

end Tree

/-! ## Layouts -/

/-- Bytes of the style attribute that a sizer has. An image in it has none. -/
def Sizer.styleSize (sizer : Sizer) : Nat := sizer.holder.styleSize

namespace LayoutBox

/-- Bytes that applying a box adds to the style attributes of a document. -/
def styleSize (box : LayoutBox) : Nat :=
  box.declarations.utf8ByteSize + (box.sizer?.map Sizer.styleSize).getD 0

section Layouts

variable {tree : Tree} {id : NodeId} {box : LayoutBox}

/-- Declarations are written in front of the style that is present. -/
theorem utf8ByteSize_style? (box : LayoutBox) (present? : Option String) :
    ((box.style? present?).map String.utf8ByteSize).getD 0 =
      (present?.map String.utf8ByteSize).getD 0 + box.declarations.utf8ByteSize := by
  have size : (box.declarations ++ present?.getD "").utf8ByteSize =
      (present?.map String.utf8ByteSize).getD 0 + box.declarations.utf8ByteSize := by
    rw [String.utf8ByteSize_append, Nat.add_comm]
    cases present? with
    | none => rfl
    | some present => rfl
  unfold style?
  dsimp only
  split
  next empty =>
    rw [String.isEmpty_iff.mp empty, String.utf8ByteSize_empty] at size
    omega
  next => exact size

theorem inlineSize_writeAttributes {element : Element} (found : tree.element? id = some element)
    (box : LayoutBox) : (box.writeAttributes tree id).inlineSize id =
      tree.inlineSize id + box.declarations.utf8ByteSize := by
  have written := Tree.element?_writeAttributes found box
  rw [Tree.inlineSize, Tree.inlineSize, Tree.attribute?_of_element? written,
    Tree.attribute?_of_element? found, (written_writes box element.attributes).style,
    utf8ByteSize_style?]

/-- A sizer with an image comes without a style attribute. -/
theorem createImageSizer_brings (forest : tree.Forest) (width height : Magnitude) :
    Tree.Brings tree (createImageSizer tree width height).2
      (createImageSizer tree width height).1
      (Element.ofPairs sizerTag [("class", sizerTag)]).styleSize := by
  let pairs := [("alt", ""), ("aria-hidden", "true"), ("class", "i-amphtml-intrinsic-sizer"),
    ("role", "presentation"), ("src", emptyImage (wholePixels width) (wholePixels height))]
  let image := Element.ofPairs "img" pairs
  let holder := Element.ofPairs sizerTag [("class", sizerTag)]
  let pictured := (tree.create (.element image)).2
  let both := (pictured.create (.element holder)).2
  obtain ⟨-, after, result, placed⟩ : both.children tree.size = [] ∧ ∃ after,
      createImageSizer tree width height = (pictured.size, after) ∧
        Tree.Placed both after pictured.size tree.size (· ++ [tree.size]) :=
    createImageSizer_placed forest width height
  have creates : Tree.Creates ⟨fun _ => False, fun _ => False⟩ Element.Plain tree
      (createImageSizer tree width height) :=
    createImageSizer_creates allowsSizers_plain forest (.refl forest) width height
  have noStyle : image.styleSize = 0 ∧ holder.styleSize = 0 := by
    refine ⟨Element.styleSize_ofPairs ?_ "img", Element.styleSize_ofPairs ?_ sizerTag⟩
    · simp only [pairs, List.forall_mem_cons]
      with_unfolding_all decide
    · with_unfolding_all decide
  have plain : image.isCustomStyle = false ∧ holder.isCustomStyle = false :=
    ⟨(plain_image pairs).2, (plain_sizer _).2⟩
  have readings : ∀ {id}, tree.size ≤ id → after.contentSize id = 0 ∧ after.inlineSize id = 0 ∧
      after.isStyleMarked id customStyleMarker = false := by
    intro id isNew
    have kind : after.kind? id = if id = pictured.size then some (.element holder)
        else if id = tree.size then some (.element image) else none := by
      rw [placed.kind?, Tree.kind?_create, Tree.kind?_create, Tree.kind?_of_size_le isNew]
    split at kind
    next =>
      have isHolder := Tree.readings_of_element? (Tree.element?_eq_some_iff.mpr kind)
      rwa [noStyle.2, plain.2] at isHolder
    next =>
      split at kind
      next =>
        have isImage := Tree.readings_of_element? (Tree.element?_eq_some_iff.mpr kind)
        rwa [noStyle.1, plain.1] at isImage
      next => exact Tree.readings_of_missing kind
  rw [result] at creates ⊢
  exact
    { extended := (((Tree.Extended.refl forest).create _).create _).append (Nat.le_refl _) placed
        creates.grows.forest
      isNew := creates.isNew
      inside := creates.inside
      inlineSize := (readings creates.isNew).2.1.trans noStyle.2.symm
      rest := fun isNew _ => (readings isNew).2.1
      plain := fun isNew => ⟨(readings isNew).1, (readings isNew).2.2⟩ }

/-- A sizer brings its own style attribute and none besides. -/
theorem createSizer?_brings (forest : tree.Forest) {created : NodeId × Tree}
    (made : box.createSizer? tree = some created) :
    Tree.Brings tree created.2 created.1 ((box.sizer?.map Sizer.styleSize).getD 0) := by
  obtain ⟨⟨width, height⟩, parts, chosen⟩ := Option.bind_eq_some_iff.mp made
  rw [sizer?, parts, Option.bind_eq_bind, Option.bind_some]
  cases layout : box.layout with
  | responsive =>
      simp only [layout, Option.some.injEq] at chosen
      subst chosen
      exact Tree.createElement_brings forest sizerTag _
        (plain_sizer _).2
  | intrinsic =>
      simp only [layout, Option.some.injEq] at chosen
      subst chosen
      exact createImageSizer_brings forest width height
  | nodisplay | fixed | fixedHeight | container | fill | flexItem | fluid =>
      simp [layout] at chosen

/-- **What a layout adds to the author styles.** It leaves the custom stylesheet alone, and
an element of the body gets no more than the style of its box. -/
theorem applyTo_inlined (forest : tree.Forest) {element : Element}
    (found : tree.element? id = some element)
    (noStyle : Ascii.sameName element.tag "style" = false)
    (noRoot : id ≠ Tree.root) (noHtml : ∀ {html}, tree.html? = some html → id ≠ html)
    (noBody : tree.body? ≠ some id) (noAudio : tree.isTagged id audioTag = false)
    (box : LayoutBox) :
    Tree.Inlined tree (box.applyTo tree id) (if tree.inBody id then box.styleSize else 0) := by
  have rewritten := Tree.Rewritten.writeAttributes tree id box
  have written := rewritten.inlined forest found noStyle (inlineSize_writeAttributes found box)
  have inside := Tree.lt_size_of_element? (Tree.element?_writeAttributes found box)
  have creates := createSizer?_spec written.forest box
  unfold applyTo applyTo? styleSize
  rw [if_neg (by simp [noAudio])]
  dsimp only
  cases chosen : box.sizer? with
  | none =>
      rw [chosen] at creates
      dsimp only at creates
      rw [creates]
      exact written
  | some sizer =>
      rw [chosen] at creates
      obtain ⟨created, made, spec⟩ := creates
      have grows : Tree.Creates ⟨fun _ => False, fun _ => False⟩ Element.Plain
          (box.writeAttributes tree id) created :=
        createSizer?_creates allowsSizers_plain written.forest (.refl written.forest) made
      have brought := createSizer?_brings written.forest made
      rw [chosen] at brought
      obtain ⟨after, done, brings, put⟩ :=
        brought.prepend? written.forest inside spec.parentless
      have placed := brings.inlined written.forest put
        (fun old => grows.grows.children old not_false) inside noRoot
        (fun html => noHtml (rewritten.parts.1.symm.trans html))
        (by rwa [Tree.body?_congr rewritten.parts.2])
      rw [rewritten.inBody forest] at placed
      rw [made]
      dsimp only
      rw [done, Option.getD_some]
      have both := written.trans placed
      rwa [ite_add_ite] at both

end Layouts

end LayoutBox

end FirstPaint
