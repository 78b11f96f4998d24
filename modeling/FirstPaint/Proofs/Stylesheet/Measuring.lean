import FirstPaint.Proofs.Document.Attributes
import FirstPaint.Proofs.Document.Extending
import FirstPaint.Proofs.Stylesheet.Accounting

/-!
# Measured author styles

The author styles of a document are measured in two places: the content of the custom
stylesheet and the style attributes of the body. Both sizes are sums of sizes of single
nodes (`contentSize`, `inlineSize`), so what an edit does to them is what it does to these
nodes. Two kinds of edits are weighed in this way: those that write one node anew
(`Rewritten.weighed`) and those that bring new nodes among the old ones
(`Extended.weighed`).

Text that is added to the custom stylesheet comes to the size of the stylesheet and to
nothing else, whatever the stylesheet holds (`TextAdded.charged`). A stylesheet that is
created where there was none is found from then on, and it is empty (`Inserted.charged`).
-/

set_option autoImplicit false

namespace FirstPaint

/-- Bytes of the style attribute of an element. -/
def Element.styleSize (element : Element) : Nat :=
  ((element.attributes.get? "style").map String.utf8ByteSize).getD 0

namespace Tree

/-! ## Measured sizes as sums -/

/-- Bytes of the data of a node. -/
def contentSize (tree : Tree) (id : NodeId) : Nat :=
  ((tree.characterData? id).map String.utf8ByteSize).getD 0

/-- Bytes of the style attribute of a node, if it is an element that has one. -/
def inlineSize (tree : Tree) (id : NodeId) : Nat :=
  ((tree.attribute? id "style").map String.utf8ByteSize).getD 0

section Sizes

variable {tree : Tree} {id : NodeId}

theorem utf8ByteSize_join (texts : List String) :
    (String.join texts).utf8ByteSize = (texts.map String.utf8ByteSize).sum := by
  induction texts with
  | nil => rfl
  | cons first rest ih =>
      rw [String.join_cons, String.utf8ByteSize_append, ih, List.map_cons, List.sum_cons]

/-- A sum over the members of a list that have a value. -/
theorem sum_filterMap (list : List NodeId) (read : NodeId → Option String) :
    ((list.filterMap read).map String.utf8ByteSize).sum =
      (list.map fun id => ((read id).map String.utf8ByteSize).getD 0).sum := by
  induction list with
  | nil => rfl
  | cons first rest ih =>
      rw [List.map_cons, List.sum_cons, ← ih]
      cases found : read first with
      | none =>
          rw [List.filterMap_cons_none found]
          exact (Nat.zero_add _).symm
      | some text =>
          rw [List.filterMap_cons_some found, List.map_cons, List.sum_cons]
          rfl

/-- Bytes in an element are those of the nodes below it. -/
theorem utf8ByteSize_textContent (isElement : (tree.element? id).isSome = true) :
    (tree.textContent id).utf8ByteSize = tree.sumBelow tree.contentSize id := by
  rw [textContent_of_element? isElement, utf8ByteSize_join, sum_filterMap]
  rfl

theorem isSome_element?_of_customStyle? (found : tree.customStyle? = some id) :
    (tree.element? id).isSome = true :=
  isSome_element?_of_isTagged (isTagged_of_customStyle? found)

theorem stylesheetSize_of_customStyle? (found : tree.customStyle? = some id) :
    tree.stylesheetSize = tree.sumBelow tree.contentSize id := by
  rw [stylesheetSize, found, Option.map_some, Option.getD_some,
    utf8ByteSize_textContent (isSome_element?_of_customStyle? found)]

theorem stylesheetSize_of_none (none : tree.customStyle? = none) : tree.stylesheetSize = 0 := by
  rw [stylesheetSize, none]
  rfl

theorem inlineStyleSize_of_body? {body : NodeId} (found : tree.body? = some body) :
    tree.inlineStyleSize = tree.sumBelow tree.inlineSize body := by
  rw [inlineStyleSize, found]
  exact sum_filterMap (tree.descendants body) (tree.attribute? · "style")

theorem inlineStyleSize_of_none (none : tree.body? = none) : tree.inlineStyleSize = 0 := by
  rw [inlineStyleSize, none]

end Sizes

/-! ## Edits that change known sizes -/

/-- Whether a node lies below the body. -/
def inBody (tree : Tree) (id : NodeId) : Bool :=
  tree.body?.any fun body => (tree.descendants body).contains id

/-- Whether a node lies below the custom stylesheet. -/
def inStylesheet (tree : Tree) (id : NodeId) : Bool :=
  tree.customStyle?.any fun style => (tree.descendants style).contains id

/-- An edit that keeps the stylesheet and adds to the content and to the style attribute of
one node. -/
structure Weighed (before after : Tree) (id : NodeId) (content inline : Nat) : Prop where
  forest : after.Forest
  customStyle? : after.customStyle? = before.customStyle?
  body? : after.body? = before.body?
  stylesheetSize : after.stylesheetSize =
    before.stylesheetSize + if after.inStylesheet id then content else 0
  inlineStyleSize : after.inlineStyleSize =
    before.inlineStyleSize + if after.inBody id then inline else 0

section Sums

variable {before after : Tree} {id : NodeId} {content inline : Nat}

theorem stylesheetSize_add (same : after.customStyle? = before.customStyle?)
    (grown : ∀ style, before.customStyle? = some style →
      after.sumBelow after.contentSize style = before.sumBelow before.contentSize style +
        if id ∈ after.descendants style then content else 0) :
    after.stylesheetSize =
      before.stylesheetSize + if after.inStylesheet id then content else 0 := by
  cases found : before.customStyle? with
  | none =>
      rw [stylesheetSize_of_none (same.trans found), stylesheetSize_of_none found, inStylesheet,
        same, found]
      rfl
  | some style =>
      rw [stylesheetSize_of_customStyle? (same.trans found), stylesheetSize_of_customStyle? found,
        grown style found, inStylesheet, same, found]
      simp

theorem inlineStyleSize_add (same : after.body? = before.body?)
    (grown : ∀ body, before.body? = some body →
      after.sumBelow after.inlineSize body = before.sumBelow before.inlineSize body +
        if id ∈ after.descendants body then inline else 0) :
    after.inlineStyleSize =
      before.inlineStyleSize + if after.inBody id then inline else 0 := by
  cases found : before.body? with
  | none =>
      rw [inlineStyleSize_of_none (same.trans found), inlineStyleSize_of_none found, inBody,
        same, found]
      rfl
  | some body =>
      rw [inlineStyleSize_of_body? (same.trans found), inlineStyleSize_of_body? found,
        grown body found, inBody, same, found]
      simp

theorem contentSize_congr (same : after.kind? id = before.kind? id) :
    after.contentSize id = before.contentSize id := by
  rw [contentSize, contentSize, characterData?_congr same]

theorem inlineSize_congr (same : after.element? id = before.element? id) :
    after.inlineSize id = before.inlineSize id := by
  rw [inlineSize, inlineSize, attribute?, attribute?, same]

end Sums

/-! ### One node is written anew -/

/-- A tree in which one node has other attributes or other data, and the same tag. -/
structure Rewritten (before after : Tree) (id : NodeId) : Prop
    extends SameLinks before after where
  kind? : ∀ other, other ≠ id → after.kind? other = before.kind? other
  tag? : after.tag? id = before.tag? id

namespace Rewritten

variable {before after : Tree} {id : NodeId} {content inline : Nat}
  (rewritten : Rewritten before after id)
include rewritten

theorem tag?_eq (other : NodeId) : after.tag? other = before.tag? other := by
  by_cases same : other = id
  · rw [same, rewritten.tag?]
  · exact tag?_congr (rewritten.kind? other same)

theorem parts : after.html? = before.html? ∧
    ∀ tag, after.htmlChild? tag = before.htmlChild? tag :=
  htmlChild?_eq (rewritten.children root) (fun _ => rewritten.children _)
    fun _ => rewritten.tag?_eq _

/-- If the node carries the marker of the custom stylesheet as before, the stylesheet is the
same. -/
theorem customStyle? (forest : before.Forest)
    (marked : after.isStyleMarked id customStyleMarker =
      before.isStyleMarked id customStyleMarker) :
    after.customStyle? = before.customStyle? := by
  have afterForest := forest.congr rewritten.toSameLinks
  have head : after.head? = before.head? := rewritten.parts.2 "head"
  rw [Tree.customStyle?, Tree.customStyle?, head]
  refine Option.bind_congr fun head _ => ?_
  rw [forest.descendants_congr afterForest fun other _ => rewritten.children other]
  refine List.find?_congr fun other _ => ?_
  by_cases same : other = id
  · rw [same, marked]
  · rw [isStyleMarked, isStyleMarked, isTagged_congr (rewritten.tag?_eq other),
      hasAttribute_congr (rewritten.kind? other same)]

theorem weighed (forest : before.Forest)
    (marked : after.isStyleMarked id customStyleMarker = before.isStyleMarked id customStyleMarker)
    (contentSize : after.contentSize id = before.contentSize id + content)
    (inlineSize : after.inlineSize id = before.inlineSize id + inline) :
    Weighed before after id content inline := by
  have afterForest := forest.congr rewritten.toSameLinks
  have listed : ∀ top, after.descendants top = before.descendants top :=
    fun top => forest.descendants_congr afterForest fun other _ => rewritten.children other
  have style := rewritten.customStyle? forest marked
  have body := body?_congr rewritten.parts.2
  -- The sum over the same nodes changes by the one weight that has changed.
  have sums : ∀ {now earlier : NodeId → Nat} {more : Nat} (top : NodeId),
      now id = earlier id + more → (∀ other, other ≠ id → now other = earlier other) →
      after.sumBelow now top =
        before.sumBelow earlier top + if id ∈ after.descendants top then more else 0 := by
    intro now earlier more top here elsewhere
    rw [sumBelow_congr (listed top) fun _ _ => rfl, listed]
    refine forest.sumBelow_add_single fun other _ => ?_
    split
    next same => rw [same, here]
    next different => rw [elsewhere other different, Nat.add_zero]
  refine ⟨afterForest, style, body, ?_, ?_⟩
  · refine stylesheetSize_add style fun top _ => sums top contentSize fun other different => ?_
    exact contentSize_congr (rewritten.kind? other different)
  · refine inlineStyleSize_add body fun top _ => sums top inlineSize fun other different => ?_
    exact inlineSize_congr (element?_congr (rewritten.kind? other different))

end Rewritten

/-! ### New nodes -/

section Extended

variable {before after : Tree} (extended : Extended before after) (forest : before.Forest)
  (rootSame : after.children root = before.children root)
  (htmlSame : ∀ {html}, before.html? = some html → after.children html = before.children html)
include extended forest rootSame htmlSame

theorem Extended.parts : after.html? = before.html? ∧
    ∀ tag, after.htmlChild? tag = before.htmlChild? tag :=
  htmlChild?_eq rootSame htmlSame fun member => tag?_congr (extended.kind? (forest.child_lt member))

/-- The style attributes of an extended tree in which one new node has one. -/
theorem Extended.inlineStyleSize {id : NodeId} (isNew : before.size ≤ id)
    (only : ∀ other, before.size ≤ other → other ≠ id → after.inlineSize other = 0) :
    after.inlineStyleSize =
      before.inlineStyleSize + if after.inBody id then after.inlineSize id else 0 := by
  refine inlineStyleSize_add (body?_congr (extended.parts forest rootSame htmlSame).2) ?_
  intro top found
  obtain ⟨html, -, member, -⟩ := body?_eq_some found
  exact extended.sumBelow forest (forest.child_lt member)
    (fun other old => inlineSize_congr (element?_congr (extended.kind? old))) isNew only

/-- The custom stylesheet of an extended tree, where no new node is one. -/
theorem Extended.customStyle? (noStyle : ∀ other, before.size ≤ other →
    after.isStyleMarked other customStyleMarker = false) :
    after.customStyle? = before.customStyle? := by
  have head : after.head? = before.head? := (extended.parts forest rootSame htmlSame).2 "head"
  rw [Tree.customStyle?, Tree.customStyle?, head]
  refine Option.bind_congr fun head found => ?_
  have inside := lt_size_of_isTagged (isTagged_of_head? found)
  rw [extended.find?_descendants forest inside fun other marked => ?_]
  · refine List.find?_congr fun other member => ?_
    obtain ⟨_, link, -⟩ := Relation.TransGen.head'_iff.mp (forest.mem_descendants_iff.mp member)
    have same := extended.kind? (lt_size_of_parent? link)
    rw [isStyleMarked, isStyleMarked, isTagged_congr (tag?_congr same), hasAttribute_congr same]
  · by_contra outside
    rw [noStyle other (Nat.le_of_not_lt outside)] at marked
    exact absurd marked (by simp)

/-- The sizes of an extended tree in which one new node has content or a style attribute,
where no new node is a custom stylesheet. -/
theorem Extended.weighed {id : NodeId} (isNew : before.size ≤ id)
    (noStyle : ∀ other, before.size ≤ other →
      after.isStyleMarked other customStyleMarker = false)
    (only : ∀ other, before.size ≤ other → other ≠ id →
      after.contentSize other = 0 ∧ after.inlineSize other = 0) :
    Weighed before after id (after.contentSize id) (after.inlineSize id) where
  forest := extended.forest
  customStyle? := extended.customStyle? forest rootSame htmlSame noStyle
  body? := body?_congr (extended.parts forest rootSame htmlSame).2
  stylesheetSize := by
    refine stylesheetSize_add (extended.customStyle? forest rootSame htmlSame noStyle) ?_
    intro top found
    have inside := (forest.isCustomStyle_of_customStyle? found).lt_size
    exact extended.sumBelow forest inside (fun other old => contentSize_congr (extended.kind? old))
      isNew fun other outside different => (only other outside different).1
  inlineStyleSize := extended.inlineStyleSize forest rootSame htmlSame isNew
    fun other outside different => (only other outside different).2

end Extended

/-! ## Text in the stylesheet -/

/-- Text has come to the custom stylesheet, and nothing else that is measured has changed. -/
structure Charged (before after : Tree) (style : NodeId) (bytes : Nat) : Prop where
  forest : after.Forest
  customStyle? : after.customStyle? = some style
  stylesheetSize : after.stylesheetSize = before.stylesheetSize + bytes
  inlineStyleSize : after.inlineStyleSize = before.inlineStyleSize

theorem Charged.trans {before middle after : Tree} {style : NodeId} {bytes more : Nat}
    (earlier : Charged before middle style bytes) (later : Charged middle after style more) :
    Charged before after style (bytes + more) where
  forest := later.forest
  customStyle? := later.customStyle?
  stylesheetSize := by rw [later.stylesheetSize, earlier.stylesheetSize, Nat.add_assoc]
  inlineStyleSize := later.inlineStyleSize.trans earlier.inlineStyleSize

section Text

variable {before after : Tree} {style head : NodeId} {more : String}

/-- A head, and what lies below it, is neither the document nor the html element. -/
theorem Forest.apart_of_within_head (forest : before.Forest) (headFound : before.head? = some head)
    {id : NodeId} (within : before.Within id head) :
    id ≠ root ∧ ∀ {html}, before.html? = some html → id ≠ html := by
  obtain ⟨html, found, link⟩ := forest.exists_html_of_head? headFound
  have upper := below_of_parent? (forest.parent?_of_html? found)
  have below : before.Below id html := by
    rcases within with rfl | below
    · exact below_of_parent? link
    · exact below.trans (below_of_parent? link)
  constructor
  · rintro rfl
    exact forest.not_below_self (below.trans upper)
  · intro other otherFound
    rw [found] at otherFound
    cases otherFound
    rintro rfl
    exact forest.not_below_self below

theorem Forest.apart_of_customStyle? (forest : before.Forest)
    (found : before.customStyle? = some style) :
    style ≠ root ∧ ∀ {html}, before.html? = some html → style ≠ html := by
  obtain ⟨head, headFound, below, -⟩ := forest.isCustomStyle_of_customStyle? found
  exact forest.apart_of_within_head headFound (.inr below)

/-- A text is no element. -/
theorem readings_of_text? {tree : Tree} {id : NodeId} {data : String}
    (isText : tree.text? id = some data) : tree.contentSize id = data.utf8ByteSize ∧
      tree.inlineSize id = 0 ∧ tree.tag? id = none ∧
      tree.isStyleMarked id customStyleMarker = false := by
  have noElement : tree.element? id = none := by
    rw [element?, text?_eq_some_iff.mp isText]
  have noTag : tree.tag? id = none := by rw [tag?, noElement, Option.map_none]
  refine ⟨?_, ?_, noTag, ?_⟩
  · rw [contentSize, characterData?_of_text? isText, Option.map_some, Option.getD_some]
  · rw [inlineSize, attribute?, noElement]
    rfl
  · rw [isStyleMarked, isTagged, noTag]
    rfl

/-- An element has no data of its own. -/
theorem readings_of_element? {tree : Tree} {id : NodeId} {element : Element}
    (isElement : tree.element? id = some element) : tree.contentSize id = 0 ∧
      tree.inlineSize id = element.styleSize ∧
      tree.isStyleMarked id customStyleMarker = element.isCustomStyle := by
  refine ⟨?_, ?_, ?_⟩
  · rw [contentSize, characterData?_of_element? (Option.isSome_iff_exists.mpr ⟨_, isElement⟩)]
    rfl
  · rw [inlineSize, attribute?_of_element? isElement, Element.styleSize]
  · rw [isStyleMarked_eq, isElement, Option.any_some]

/-- There is nothing to read where there is no node. -/
theorem readings_of_missing {tree : Tree} {id : NodeId} (missing : tree.kind? id = none) :
    tree.contentSize id = 0 ∧ tree.inlineSize id = 0 ∧
      tree.isStyleMarked id customStyleMarker = false := by
  simp [contentSize, inlineSize, characterData?, attribute?, isStyleMarked, isTagged, tag?,
    element?, missing]

theorem Lengthened.weighed {text : NodeId} (lengthened : Lengthened before after text more)
    (forest : before.Forest) : Weighed before after text more.utf8ByteSize 0 := by
  obtain ⟨data, found, grown⟩ := lengthened.text?
  obtain ⟨sizeBefore, inlineBefore, tagBefore, markBefore⟩ := readings_of_text? found
  obtain ⟨sizeAfter, inlineAfter, tagAfter, markAfter⟩ := readings_of_text? grown
  have rewritten : Rewritten before after text :=
    ⟨lengthened.toSameLinks, lengthened.kind?, tagAfter.trans tagBefore.symm⟩
  refine rewritten.weighed forest (markAfter.trans markBefore.symm) ?_ ?_
  · rw [sizeAfter, sizeBefore, String.utf8ByteSize_append]
  · rw [inlineAfter, inlineBefore]

theorem Inserted.kind?_later {parent : NodeId} {kind : NodeKind}
    (inserted : Inserted before after parent kind) {id : NodeId} (isNew : before.size ≤ id)
    (different : id ≠ before.size) : after.kind? id = none := by
  rw [inserted.kind?, if_neg different, kind?_of_size_le isNew]

/-- Nodes other than the parent keep their children. -/
theorem Inserted.children_apart {parent : NodeId} {kind : NodeKind}
    (inserted : Inserted before after parent kind)
    (apart : parent ≠ root ∧ ∀ {html}, before.html? = some html → parent ≠ html) :
    after.children root = before.children root ∧
      ∀ {html}, before.html? = some html → after.children html = before.children html := by
  constructor
  · rw [inserted.children, if_neg (Ne.symm apart.1)]
  · intro html found
    rw [inserted.children, if_neg (Ne.symm (apart.2 found))]

theorem Inserted.weighed {parent : NodeId} (inserted : Inserted before after parent (.text more))
    (forest : before.Forest) (apart : parent ≠ root ∧ ∀ {html}, before.html? = some html →
      parent ≠ html) : Weighed before after before.size more.utf8ByteSize 0 := by
  have isText : after.text? before.size = some more := text?_eq_some_iff.mpr inserted.kind?_new
  obtain ⟨size, inline, -, unmarked⟩ := readings_of_text? isText
  have missing : ∀ {id}, before.size ≤ id → id ≠ before.size → after.contentSize id = 0 ∧
      after.inlineSize id = 0 ∧ after.isStyleMarked id customStyleMarker = false :=
    fun isNew different => readings_of_missing (inserted.kind?_later isNew different)
  rw [← size, ← inline]
  obtain ⟨rootSame, htmlSame⟩ := inserted.children_apart apart
  refine (inserted.extended forest).weighed forest rootSame htmlSame (Nat.le_refl _) ?_ ?_
  · intro other isNew
    by_cases same : other = before.size
    · rw [same, unmarked]
    · exact (missing isNew same).2.2
  · intro other isNew different
    exact ⟨(missing isNew different).1, (missing isNew different).2.1⟩

/-- Text that is added to the custom stylesheet is measured by its bytes. -/
theorem TextAdded.charged (added : TextAdded before after style more) (forest : before.Forest)
    (found : before.customStyle? = some style) :
    Charged before after style more.utf8ByteSize := by
  -- The text that has grown or come is a child of the stylesheet.
  have charged : ∀ {text : NodeId}, Weighed before after text more.utf8ByteSize 0 →
      after.parent? text = some style → Charged before after style more.utf8ByteSize := by
    intro text weighed link
    have stays := weighed.customStyle?.trans found
    have inside : after.inStylesheet text = true := by
      rw [inStylesheet, stays, Option.any_some, List.contains_iff_mem,
        weighed.forest.mem_descendants_iff]
      exact below_of_parent? link
    refine ⟨weighed.forest, stays, ?_, ?_⟩
    · rw [weighed.stylesheetSize, if_pos inside]
    · rw [weighed.inlineStyleSize, ite_self, Nat.add_zero]
  cases added with
  | lengthened isLast lengthened =>
      refine charged (lengthened.weighed forest) ?_
      rw [lengthened.parent?]
      exact forest.mem_children_iff.mp (List.mem_of_getLast? isLast)
  | inserted _ inserted =>
      refine charged (inserted.weighed forest (forest.apart_of_customStyle? found)) ?_
      rw [inserted.parent?, if_pos rfl]

/-- A stylesheet that is created where there is none is the one that is found, and it is
empty. -/
theorem Inserted.charged (inserted : Inserted before after head Budget.styleKind)
    (forest : before.Forest) (headFound : before.head? = some head)
    (absent : before.customStyle? = none) : Charged before after before.size 0 := by
  have extended := inserted.extended forest
  obtain ⟨rootSame, htmlSame⟩ :=
    inserted.children_apart (forest.apart_of_within_head headFound (.inl rfl))
  have head' : after.head? = some head :=
    ((extended.parts forest rootSame htmlSame).2 "head").trans headFound
  have isElement : after.element? before.size =
      some (Element.ofPairs "style" [(customStyleMarker, "")]) :=
    element?_eq_some_iff.mpr inserted.kind?_new
  obtain ⟨-, unstyled, isMarked⟩ := readings_of_element? isElement
  have marked : after.isStyleMarked before.size customStyleMarker = true := by
    rw [isMarked]
    with_unfolding_all decide
  have isNew : after.IsCustomStyle before.size := by
    refine ⟨head, head', below_of_parent? ?_, marked⟩
    rw [inserted.parent?, if_pos rfl]
  have found : after.customStyle? = some before.size := by
    cases found : after.customStyle? with
    | none => exact absurd ⟨_, isNew⟩ (inserted.forest.customStyle?_eq_none_iff.mp found)
    | some other =>
        -- Another one would have been there before.
        by_contra different
        obtain ⟨_, otherHead, below, otherMarked⟩ :=
          inserted.forest.isCustomStyle_of_customStyle? found
        have elsewhere : other ≠ before.size := fun same => different (congrArg some same)
        have inside : other < before.size := by
          have bound := lt_size_of_isTagged (isTagged_style_of_isStyleMarked otherMarked)
          rw [inserted.size] at bound
          exact Nat.lt_of_le_of_ne (Nat.le_of_lt_succ bound) elsewhere
        have same := extended.kind? inside
        rw [extended.grows.below_iff forest inside] at below
        rw [isStyleMarked, isTagged_congr (tag?_congr same), hasAttribute_congr same] at otherMarked
        rw [otherHead] at head'
        cases head'
        exact forest.customStyle?_eq_none_iff.mp absent ⟨other, head, headFound, below, otherMarked⟩
  have noInline : ∀ {id}, before.size ≤ id → after.inlineSize id = 0 := by
    intro id outside
    by_cases same : id = before.size
    · rw [same, unstyled]
      with_unfolding_all decide
    · exact (readings_of_missing (inserted.kind?_later outside same)).2.1
  refine ⟨inserted.forest, found, ?_, ?_⟩
  · rw [stylesheetSize_of_customStyle? found, stylesheetSize_of_none absent, sumBelow,
      inserted.forest.descendants_eq, inserted.children_new]
    rfl
  · rw [extended.inlineStyleSize forest rootSame htmlSame (Nat.le_refl _)
      fun other outside _ => noInline outside, noInline (Nat.le_refl _), ite_self, Nat.add_zero]

end Text

end Tree

end FirstPaint
