import FirstPaint.Proofs.Document.Relinking
import FirstPaint.Proofs.Document.Subtrees
import FirstPaint.Proofs.Pass.Growth

/-!
# Adding a node or a text

What is different in a tree after a new node has been made the last child of a parent
(`Inserted`), after a detached node has become the first child (`PutFirst`), after the
data of one text has grown at its end (`Lengthened`), and after text has been added at
the end of a node, which is the first or the third of these (`TextAdded`). Each of them
is described by what is read of both trees, so that nothing is left open: all that is not
mentioned is as it was.

Text that is added at the end of an element comes at the end of its content, provided
that a text that is last has no children of its own (`TextAdded.textContent`).
-/

set_option autoImplicit false

namespace FirstPaint

namespace Tree

/-! ## A new last child -/

/-- A tree in which a new node of a kind is the last child of a parent. -/
structure Inserted (before after : Tree) (parent : NodeId) (kind : NodeKind) : Prop where
  forest : after.Forest
  size : after.size = before.size + 1
  counters : after.counters = before.counters
  kind? : ∀ id, after.kind? id = if id = before.size then some kind else before.kind? id
  parent? : ∀ id, after.parent? id = if id = before.size then some parent else before.parent? id
  children : ∀ id, after.children id =
    if id = parent then before.children parent ++ [before.size] else before.children id

/-- Appending a new node to a node of the store. -/
theorem Forest.inserted {tree : Tree} {id : NodeId} (forest : tree.Forest)
    (inside : id < tree.size) (kind : NodeKind) :
    Inserted tree ((tree.create kind).2.append id tree.size) id kind := by
  obtain ⟨after, done, may, placed⟩ := forest.append?_create inside kind
  have absent : ∀ other, ((tree.create kind).2.children other).filter (· != tree.size) =
      tree.children other := by
    intro other
    rw [children_create]
    exact forest.filter_children (by simp [parent?_of_size_le])
  rw [Tree.append, done, Option.getD_some]
  refine ⟨?_, placed.size.trans (size_create kind), placed.counters, ?_, ?_, ?_⟩
  · exact placed.forest (forest.congr (SameLinks.create tree kind)) may (perm_append_child _)
  · intro other
    rw [placed.kind?, kind?_create]
  · intro other
    rw [placed.parent?, parent?_create]
  · intro other
    rw [placed.children, absent, absent]

namespace Inserted

variable {before after : Tree} {parent id : NodeId} {kind : NodeKind}
  (inserted : Inserted before after parent kind)
include inserted

theorem kind?_new : after.kind? before.size = some kind := by
  rw [inserted.kind?, if_pos rfl]

theorem kind?_old (inside : id < before.size) : after.kind? id = before.kind? id := by
  rw [inserted.kind?, if_neg (Nat.ne_of_lt inside)]

theorem children_new : after.children before.size = [] := by
  rw [inserted.children]
  split
  next same =>
    -- The parent is listed as holder of the new node, so it was in the store before.
    have link : after.parent? before.size = some parent := by rw [inserted.parent?, if_pos rfl]
    exact absurd same.symm (inserted.forest.ne_of_parent? link)
  next => exact children_of_size_le (Nat.le_refl _)

/-- The new node is the last descendant of its parent. -/
theorem descendants_parent (forest : before.Forest) :
    after.descendants parent = before.descendants parent ++ [before.size] := by
  have newChildless := inserted.forest.descendants_eq before.size
  rw [inserted.children_new, List.flatMap_nil] at newChildless
  rw [inserted.forest.descendants_eq, inserted.children, if_pos rfl, List.flatMap_append,
    List.flatMap_singleton, newChildless, forest.descendants_eq]
  refine congrArg (· ++ [before.size]) (List.flatMap_congr fun child member => ?_)
  have link := forest.mem_children_iff.mp member
  rw [forest.descendants_congr inserted.forest fun id within => ?_]
  rw [inserted.children, if_neg]
  rintro rfl
  rcases within with rfl | below
  · exact forest.ne_of_parent? link rfl
  · exact forest.not_below_self (below.trans (below_of_parent? link))

end Inserted

/-! ## A first child -/

/-- A tree in which a detached node has become the first child of a parent. -/
structure PutFirst (before after : Tree) (parent child : NodeId) : Prop
    extends SameContent before after where
  forest : after.Forest
  parent? : ∀ id, after.parent? id = if id = child then some parent else before.parent? id
  children : ∀ id, after.children id =
    if id = parent then child :: before.children parent else before.children id

/-- Placing a detached node in front of the children. -/
theorem Forest.prepend?_spec {tree : Tree} {parent child : NodeId} (forest : tree.Forest)
    (parentInside : parent < tree.size) (childInside : child < tree.size)
    (may : tree.mayPlace parent child = true) (parentless : tree.parent? child = none) :
    ∃ after, tree.prepend? parent child = some after ∧ PutFirst tree after parent child := by
  have absent : ∀ other, (tree.children other).filter (· != child) = tree.children other :=
    fun other => forest.filter_children (by simp [parentless])
  have notFirst : tree.firstChild? parent ≠ some child := by
    intro isFirst
    have link := forest.mem_children_iff.mp (List.mem_of_head? isFirst)
    exact absurd (parentless.symm.trans link) (by simp)
  obtain ⟨after, arrange, done, placed, permuted, arranged⟩ :=
    forest.prepend?_placed parentInside childInside may
  rw [if_neg notFirst, absent] at arranged
  refine ⟨after, done, placed.toSameContent, placed.forest forest may permuted, placed.parent?,
    fun id => ?_⟩
  rw [placed.children, absent, absent, arranged]

/-! ## A longer text -/

/-- A tree in which the data of one text has grown at its end. -/
structure Lengthened (before after : Tree) (text : NodeId) (more : String) : Prop
    extends SameLinks before after where
  size : after.size = before.size
  counters : after.counters = before.counters
  text? : ∃ data, before.text? text = some data ∧ after.text? text = some (data ++ more)
  kind? : ∀ id, id ≠ text → after.kind? id = before.kind? id

theorem lengthened_withText {tree : Tree} {text : NodeId} {data : String}
    (found : tree.text? text = some data) (more : String) :
    Lengthened tree (tree.modify text (Node.withText (data ++ more))) text more where
  toSameLinks := SameLinks.withText tree text _
  size := size_modify _
  counters := rfl
  text? := ⟨data, found, text?_eq_some_iff.mpr (kind?_lengthen found more)⟩
  kind? id different := by rw [kind?_modify, if_neg different]

/-! ## Text at the end of a node -/

/-- A tree in which text has been added at the end of a node: to its last child if that
is a text, and else as a new last child. -/
inductive TextAdded (before after : Tree) (id : NodeId) (more : String) : Prop where
  | lengthened {last : NodeId} (isLast : before.lastChild? id = some last)
      (lengthened : Lengthened before after last more) : TextAdded before after id more
  | inserted (noText : ∀ last, before.lastChild? id = some last → before.text? last = none)
      (inserted : Inserted before after id (.text more)) : TextAdded before after id more

theorem Forest.textAdded {tree : Tree} {id : NodeId} (forest : tree.Forest)
    (inside : id < tree.size) (more : String) :
    TextAdded tree (tree.appendText id more) id more := by
  have created : appendText?.appendNewText tree id more =
      some ((tree.create (.text more)).2.append id tree.size) := by
    obtain ⟨after, done, -⟩ := forest.append?_create inside (.text more)
    rw [Tree.append, done]
    exact done
  unfold appendText Tree.appendText?
  split
  next last isLast =>
    split
    next data found => exact .lengthened isLast (lengthened_withText found more)
    next noText =>
      rw [created, Option.getD_some]
      refine .inserted (fun other otherLast => ?_) (forest.inserted inside _)
      rw [isLast] at otherLast
      cases otherLast
      exact noText
  next childless =>
    rw [created, Option.getD_some]
    refine .inserted (fun last isLast => ?_) (forest.inserted inside _)
    rw [childless] at isLast
    exact absurd isLast (by simp)

theorem TextAdded.forest {before after : Tree} {id : NodeId} {more : String}
    (added : TextAdded before after id more) (forest : before.Forest) : after.Forest := by
  cases added with
  | lengthened _ lengthened => exact forest.congr lengthened.toSameLinks
  | inserted _ inserted => exact inserted.forest

/-! ## Content -/

section Content

variable {before after : Tree} {id : NodeId} {more : String}

theorem characterData?_congr (same : after.kind? id = before.kind? id) :
    after.characterData? id = before.characterData? id := by
  simp only [characterData?, same]

theorem characterData?_of_text? {data : String} (found : before.text? id = some data) :
    before.characterData? id = some data := by
  rw [characterData?, text?_eq_some_iff.mp found]

/-- An element has no data of its own. -/
theorem characterData?_of_element? (isElement : (before.element? id).isSome = true) :
    before.characterData? id = none := by
  obtain ⟨element, found⟩ := Option.isSome_iff_exists.mp isElement
  rw [characterData?, element?_eq_some_iff.mp found]

theorem textContent_of_childless (forest : before.Forest) (childless : before.children id = [])
    (noData : before.characterData? id = none) : before.textContent id = "" := by
  rw [textContent, noData, forest.descendants_eq, childless]
  rfl

/-- The content of an element is that of its descendants. -/
theorem textContent_of_element? (isElement : (before.element? id).isSome = true) :
    before.textContent id =
      String.join ((before.descendants id).filterMap before.characterData?) := by
  rw [textContent, characterData?_of_element? isElement]

/-- The content of an element grows with the text of its last child. -/
theorem Lengthened.textContent {last : NodeId} (lengthened : Lengthened before after last more)
    (forest : before.Forest) (isElement : (before.element? id).isSome = true)
    (isLast : before.lastChild? id = some last) (childless : before.children last = []) :
    after.textContent id = before.textContent id ++ more := by
  obtain ⟨data, found, grown⟩ := lengthened.text?
  have different : id ≠ last := by
    rintro rfl
    simp [element?, text?_eq_some_iff.mp found] at isElement
  have stillElement : (after.element? id).isSome = true := by
    rwa [element?_congr (lengthened.kind? id different)]
  have afterForest := forest.congr lengthened.toSameLinks
  obtain ⟨others, split⟩ := List.getLast?_eq_some_iff.mp isLast
  have nothingBelow := forest.descendants_eq last
  rw [childless, List.flatMap_nil] at nothingBelow
  -- The last child has nothing below it, so it is the last of all descendants.
  have listed : before.descendants id =
      (others.flatMap fun child => child :: before.descendants child) ++ [last] := by
    rw [forest.descendants_eq, split, List.flatMap_append, List.flatMap_singleton, nothingBelow]
  have same : after.descendants id = before.descendants id :=
    forest.descendants_congr afterForest fun id _ => lengthened.children id
  have distinct := forest.nodup_descendants id
  rw [listed] at distinct
  obtain ⟨-, -, apart⟩ := List.nodup_append.mp distinct
  have kept : (others.flatMap fun child => child :: before.descendants child).filterMap
      after.characterData? =
      (others.flatMap fun child => child :: before.descendants child).filterMap
        before.characterData? := by
    refine List.filterMap_congr fun node member => ?_
    have elsewhere := apart node member last (List.mem_singleton_self last)
    exact characterData?_congr (lengthened.kind? node elsewhere)
  rw [textContent_of_element? stillElement, textContent_of_element? isElement, same, listed,
    List.filterMap_append, List.filterMap_append, kept]
  simp [characterData?_of_text? found, characterData?_of_text? grown, String.append_assoc]

/-- The content of an element grows by a text that becomes its last child. -/
theorem Inserted.textContent (inserted : Inserted before after id (.text more))
    (forest : before.Forest) (isElement : (before.element? id).isSome = true) :
    after.textContent id = before.textContent id ++ more := by
  have inside : id < before.size := by
    obtain ⟨element, found⟩ := Option.isSome_iff_exists.mp isElement
    exact lt_size_of_element? found
  have stillElement : (after.element? id).isSome = true := by
    rwa [element?_congr (inserted.kind?_old inside)]
  have new : after.characterData? before.size = some more := by
    rw [characterData?, inserted.kind?_new]
  have kept : (before.descendants id).filterMap after.characterData? =
      (before.descendants id).filterMap before.characterData? := by
    refine List.filterMap_congr fun node member => characterData?_congr (inserted.kind?_old ?_)
    obtain ⟨_, link, -⟩ := Relation.TransGen.head'_iff.mp (forest.mem_descendants_iff.mp member)
    exact lt_size_of_parent? link
  rw [textContent_of_element? stillElement, textContent_of_element? isElement,
    inserted.descendants_parent forest, List.filterMap_append, kept]
  simp [new]

/-- Text that is added at the end of an element comes at the end of its content, unless the
text that it lengthens has children. -/
theorem TextAdded.textContent (added : TextAdded before after id more) (forest : before.Forest)
    (isElement : (before.element? id).isSome = true)
    (childless : ∀ last, before.lastChild? id = some last → (before.text? last).isSome = true →
      before.children last = []) :
    after.textContent id = before.textContent id ++ more := by
  cases added with
  | lengthened isLast lengthened =>
      obtain ⟨data, found, -⟩ := lengthened.text?
      have isText := Option.isSome_of_eq_some found
      exact lengthened.textContent forest isElement isLast (childless _ isLast isText)
  | inserted _ inserted => exact inserted.textContent forest isElement

end Content

end Tree

end FirstPaint
