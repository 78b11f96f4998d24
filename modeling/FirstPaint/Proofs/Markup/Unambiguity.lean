import FirstPaint.Proofs.Document.Calls
import FirstPaint.Proofs.Document.Subtrees
import FirstPaint.Proofs.Markup.Fragments
import Mathlib.Data.List.Forall2

/-!
# The markup of a document determines the document

A document is `Serializable` when nothing in it would run together or end too early in
its markup. Two serializable documents with the same markup are alike: the same kinds of
nodes with the same names, values and data, in the same order (`alike_of_outerMarkup_eq`).
The names of the nodes may differ, and so may what is stored beside the documents.

What has been shown about fragments is carried to trees through the equation of the
content of a node in a forest (`Forest.fragment?_eq`), by induction downwards.
-/

set_option autoImplicit false

namespace FirstPaint

/-- What a node contains, given what its children contain. -/
def NodeKind.fragment (parts : List Fragment) : NodeKind → Fragment
  | .document => .document parts
  | .element holder => .element holder parts
  | .text data => .text data
  | .comment data => .comment data
  | .cdata data => .cdata data

/-- Whether a node of that kind has no parts of its own. -/
def NodeKind.isLeaf : NodeKind → Bool
  | .document => false
  | .element _ => false
  | .text _ => true
  | .comment _ => true
  | .cdata _ => true

/-- The content of a node shows its kind, and its parts if it has any. -/
theorem NodeKind.eq_of_fragment_eq {kind other : NodeKind} {parts others : List Fragment}
    (same : kind.fragment parts = other.fragment others) :
    kind = other ∧ (kind.isLeaf = false → parts = others) := by
  cases kind <;> cases other <;> simp_all [fragment, isLeaf]

/-- What a node below the document may be, if its markup is to be read back. -/
def NodeKind.Writable : NodeKind → Prop
  | .document => False
  | .element holder => holder.Named
  | .text data => data ≠ ""
  | .comment data => ¬ "-->".toList <:+: data.toList
  | .cdata data => ¬ "]]>".toList <:+: data.toList

instance : DecidablePred NodeKind.Writable
  | .document => isFalse fun impossible => impossible
  | .element holder => inferInstanceAs (Decidable holder.Named)
  | .text data => inferInstanceAs (Decidable (data ≠ ""))
  | .comment data => inferInstanceAs (Decidable ¬ "-->".toList <:+: data.toList)
  | .cdata data => inferInstanceAs (Decidable ¬ "]]>".toList <:+: data.toList)

namespace Tree

/-! ## Documents that can be read back -/

/-- A document whose markup can be read back. -/
structure Serializable (tree : Tree) : Prop where
  /-- The root is a document. -/
  root : tree.kind? root = some .document
  /-- Below it there are no other documents; names are well-formed, texts are not empty,
  comments and marked sections do not hold the signs that end them. -/
  kinds : ∀ id ∈ tree.descendants Tree.root, ∀ kind ∈ tree.kind? id, kind.Writable
  /-- Below the root only elements have children. -/
  parents : ∀ id ∈ tree.descendants Tree.root, tree.children id ≠ [] →
    (tree.element? id).isSome = true
  /-- No two texts are adjacent. -/
  separated : ∀ id ∈ Tree.root :: tree.descendants Tree.root, (tree.children id).IsChain
    fun left right => ¬ ((tree.text? left).isSome = true ∧ (tree.text? right).isSome = true)
  /-- Void elements have no children. -/
  void : ∀ id ∈ tree.descendants Tree.root, ∀ element ∈ tree.element? id,
    voidTags.contains element.tag = true → tree.children id = []
  /-- Elements with raw text have at most one child, a text that does not begin an end
  tag. -/
  raw : ∀ id ∈ tree.descendants Tree.root, ∀ element ∈ tree.element? id,
    element.holdsRawText = true → (tree.children id).length ≤ 1 ∧
      ∀ child ∈ tree.children id, ∃ data ∈ tree.text? child, ¬ "</".toList <:+: data.toList

/-- A node of one tree is what a node of another tree is, and so are their children one
after another. -/
inductive Alike (first second : Tree) : NodeId → NodeId → Prop where
  | node {left right : NodeId} (kind : first.kind? left = second.kind? right)
      (children : List.Forall₂ (Alike first second) (first.children left)
        (second.children right)) : Alike first second left right

/-! ## The content of a node in a forest -/

theorem children_of_kind?_eq_none {tree : Tree} {id : NodeId} (missing : tree.kind? id = none) :
    tree.children id = [] := by
  rw [kind?, Option.map_eq_none_iff, node?_eq_none_iff] at missing
  exact children_of_size_le missing

theorem below_of_mem_children {tree : Tree} (forest : tree.Forest) {id top child : NodeId}
    (within : tree.Within id top) (member : child ∈ tree.children id) : tree.Below child top := by
  have link := below_of_parent? (forest.mem_children_iff.mp member)
  rcases within with rfl | below
  · exact link
  · exact link.trans below

/-- A partial function with a value at each member of a list. -/
theorem map_eq_map_some {α β : Type} {read : α → Option β} {list : List α}
    (total : ∀ member ∈ list, (read member).isSome = true) :
    list.map read = (list.filterMap read).map some := by
  induction list with
  | nil => rfl
  | cons first rest ih =>
      obtain ⟨value, found⟩ := Option.isSome_iff_exists.mp (total first List.mem_cons_self)
      rw [List.map_cons, List.filterMap_cons_some found, List.map_cons, found,
        ih fun member listed => total member (List.mem_cons_of_mem _ listed)]

namespace Forest

variable {tree : Tree} (forest : tree.Forest)
include forest

/-- The content of a node is made of the contents of its children. -/
theorem fragment?_eq (id : NodeId) : tree.fragment? id =
    (tree.kind? id).map (NodeKind.fragment ((tree.children id).filterMap tree.fragment?)) := by
  rw [← forest.fragmentUpTo_eq_fragment? id 1, fragmentUpTo]
  cases tree.kind? id with
  | none => rfl
  | some kind => cases kind <;> rfl

theorem isSome_fragment?_of_mem_children {child parent : NodeId}
    (member : child ∈ tree.children parent) : (tree.fragment? child).isSome = true := by
  obtain ⟨node, found⟩ := tree.node?_eq_some_of_lt (forest.child_lt member)
  rw [forest.fragment?_eq, Option.isSome_map, kind?, found]
  rfl

theorem map_fragment? (id : NodeId) : (tree.children id).map tree.fragment? =
    ((tree.children id).filterMap tree.fragment?).map some :=
  map_eq_map_some fun _ member => forest.isSome_fragment?_of_mem_children member

/-- The content of a node is a text exactly if the node is one. -/
theorem opening_fragment?_eq_text_iff (id : NodeId) :
    (tree.fragment? id).map Fragment.opening = some .text ↔ (tree.text? id).isSome = true := by
  rw [forest.fragment?_eq, text?]
  cases tree.kind? id with
  | none => simp
  | some kind => cases kind <;> simp [NodeKind.fragment, Fragment.opening]

/-- The parts of a node are separated if its children are. -/
theorem separated_parts {id : NodeId} (separated : (tree.children id).IsChain
    fun left right => ¬ ((tree.text? left).isSome = true ∧ (tree.text? right).isSome = true)) :
    Fragment.Separated ((tree.children id).filterMap tree.fragment?) := by
  have listed : ((tree.children id).map tree.fragment?).IsChain fun left right =>
      ¬ (left.map Fragment.opening = some .text ∧ right.map Fragment.opening = some .text) := by
    rw [List.isChain_map]
    simpa only [forest.opening_fragment?_eq_text_iff] using separated
  rw [forest.map_fragment?, List.isChain_map] at listed
  simpa only [Fragment.Separated, Option.map_some, Option.some.injEq] using listed

end Forest

/-! ## Documents and fragments -/

namespace Serializable

variable {tree : Tree} (serializable : tree.Serializable) (forest : tree.Forest)
include serializable forest

theorem childless {id : NodeId} {kind : NodeKind} (within : tree.Within id Tree.root)
    (known : tree.kind? id = some kind) (leaf : kind.isLeaf = true) : tree.children id = [] := by
  rcases within with rfl | below
  · rw [serializable.root] at known
    cases known
    exact absurd leaf Bool.false_ne_true
  · by_contra parent
    have isElement := serializable.parents id (forest.mem_descendants_iff.mpr below) parent
    obtain ⟨element, found⟩ := Option.isSome_iff_exists.mp isElement
    rw [element?_eq_some_iff, known] at found
    cases found
    exact absurd leaf Bool.false_ne_true

/-- The content of each node below the root can be read back. -/
theorem fragment {id : NodeId} (below : tree.Below id Tree.root) :
    ∀ part ∈ tree.fragment? id, part.Serializable := by
  revert below
  refine forest.downward (motive := fun id => tree.Below id Tree.root →
    ∀ part ∈ tree.fragment? id, part.Serializable) ?_ id
  intro id ih below part found
  have member := forest.mem_descendants_iff.mpr below
  rw [Option.mem_def, forest.fragment?_eq] at found
  obtain ⟨kind, known, rfl⟩ := Option.map_eq_some_iff.mp found
  have writable := serializable.kinds id member kind known
  cases kind with
  | document => exact writable.elim
  | element holder =>
      have element : tree.element? id = some holder := element?_eq_some_iff.mpr known
      refine .element writable (fun part listed => ?_)
        (forest.separated_parts (serializable.separated id (List.mem_cons_of_mem _ member)))
        (fun void => ?_) fun raw => ?_
      · obtain ⟨child, childListed, childFound⟩ := List.mem_filterMap.mp listed
        have link := forest.mem_children_iff.mp childListed
        exact ih child childListed ((below_of_parent? link).trans below) part childFound
      · rw [serializable.void id member holder element void, List.filterMap_nil]
      · obtain ⟨atMostOne, texts⟩ := serializable.raw id member holder element raw
        refine ⟨(List.length_filterMap_le _ _).trans atMostOne, fun part listed => ?_⟩
        obtain ⟨child, childListed, childFound⟩ := List.mem_filterMap.mp listed
        obtain ⟨data, isText, free⟩ := texts child childListed
        rw [forest.fragment?_eq, text?_eq_some_iff.mp isText] at childFound
        exact ⟨data, (Option.some.inj childFound).symm, free⟩
  | text data => exact .text writable
  | comment data => exact .comment writable
  | cdata data => exact .cdata writable

theorem fragment_of_mem {part : Fragment}
    (listed : part ∈ (tree.children Tree.root).filterMap tree.fragment?) : part.Serializable := by
  obtain ⟨child, member, found⟩ := List.mem_filterMap.mp listed
  exact serializable.fragment forest (below_of_parent? (forest.mem_children_iff.mp member)) part
    found

/-- The markup of a document is the markup of its parts. -/
theorem outerMarkup_root : tree.outerMarkup Tree.root = String.ofList
    (Fragment.markupAll false ((tree.children Tree.root).filterMap tree.fragment?)) := by
  rw [outerMarkup, forest.fragment?_eq, serializable.root]
  rfl

end Serializable

/-! ## Alike documents -/

section Alike

variable {first second : Tree} (firstForest : first.Forest) (secondForest : second.Forest)
include firstForest secondForest

/-- Children with the same contents are alike if nodes with the same contents are. -/
theorem alike_children {left right : NodeId}
    (parts : (first.children left).filterMap first.fragment? =
      (second.children right).filterMap second.fragment?)
    (relate : ∀ child ∈ first.children left, ∀ other ∈ second.children right,
      first.fragment? child = second.fragment? other → Alike first second child other) :
    List.Forall₂ (Alike first second) (first.children left) (second.children right) := by
  have contents : List.Forall₂ (fun child other => first.fragment? child = second.fragment? other)
      (first.children left) (second.children right) := by
    rw [← List.forall₂_map_right_iff, ← List.forall₂_map_left_iff, List.forall₂_eq_eq_eq,
      firstForest.map_fragment?, secondForest.map_fragment?, parts]
  -- The members of both lists are known where they are compared.
  have leftListed := (List.forall₂_and_left _ _).mpr ⟨fun child member => member, contents⟩
  have listed := (List.forall₂_and_left _ _).mpr ⟨fun other member => member, leftListed.flip⟩
  refine listed.flip.imp fun child other known => ?_
  exact relate child known.2.1 other known.1 known.2.2

/-- Alike nodes have the same content. -/
theorem Alike.fragment?_eq {left right : NodeId} (alike : Alike first second left right) :
    first.fragment? left = second.fragment? right := by
  revert right
  refine firstForest.downward (motive := fun left => ∀ {right : NodeId},
    Alike first second left right → first.fragment? left = second.fragment? right) ?_ left
  intro left ih right alike
  cases alike with
  | node kind children =>
      have contents : (first.children left).map first.fragment? =
          (second.children right).map second.fragment? := by
        rw [← List.forall₂_eq_eq_eq, List.forall₂_map_right_iff, List.forall₂_map_left_iff]
        have listed := (List.forall₂_and_left _ _).mpr ⟨fun child member => member, children⟩
        exact listed.imp fun child other known => ih child known.1 known.2
      have parts := congrArg (List.filterMap id) contents
      rw [List.filterMap_map, List.filterMap_map] at parts
      rw [firstForest.fragment?_eq, secondForest.fragment?_eq, kind]
      exact congrArg (fun parts => (second.kind? right).map (NodeKind.fragment parts)) parts

/-- Nodes of two documents that have the same content are alike. -/
theorem alike_of_fragment?_eq (firstSerializable : first.Serializable)
    (secondSerializable : second.Serializable) {left right : NodeId}
    (leftWithin : first.Within left root) (rightWithin : second.Within right root)
    (same : first.fragment? left = second.fragment? right) : Alike first second left right := by
  revert leftWithin right
  refine firstForest.downward (motive := fun left => ∀ {right : NodeId},
    first.Within left root → second.Within right root →
      first.fragment? left = second.fragment? right → Alike first second left right) ?_ left
  intro left ih right leftWithin rightWithin same
  have equation := same
  rw [firstForest.fragment?_eq, secondForest.fragment?_eq] at equation
  cases known : first.kind? left with
  | none =>
      rw [known, Option.map_none, eq_comm, Option.map_eq_none_iff] at equation
      refine .node (known.trans equation.symm) ?_
      rw [children_of_kind?_eq_none known, children_of_kind?_eq_none equation]
      exact .nil
  | some kind =>
      rw [known, Option.map_some, eq_comm, Option.map_eq_some_iff] at equation
      obtain ⟨other, otherKnown, contents⟩ := equation
      obtain ⟨rfl, parts⟩ := NodeKind.eq_of_fragment_eq contents.symm
      refine .node (known.trans otherKnown.symm) ?_
      cases leaf : kind.isLeaf with
      | false =>
          refine alike_children firstForest secondForest (parts leaf) ?_
          intro child member other otherMember same
          exact ih child member
            (.inr (below_of_mem_children firstForest leftWithin member))
            (.inr (below_of_mem_children secondForest rightWithin otherMember)) same
      | true =>
          rw [firstSerializable.childless firstForest leftWithin known leaf,
            secondSerializable.childless secondForest rightWithin otherKnown leaf]
          exact .nil

/-- Alike documents have the same markup: nothing but the names of the nodes is lost. -/
theorem Alike.outerMarkup_eq (alike : Alike first second root root)
    (document : first.kind? root = some .document) :
    first.outerMarkup root = second.outerMarkup root := by
  have same := alike.fragment?_eq firstForest secondForest
  rw [firstForest.fragment?_eq, document] at same
  rw [outerMarkup, outerMarkup, ← same, firstForest.fragment?_eq, document]
  rfl

/-- **The markup of a document determines the document**: two serializable documents with
the same markup are the same up to the names of their nodes. -/
theorem alike_of_outerMarkup_eq (firstSerializable : first.Serializable)
    (secondSerializable : second.Serializable)
    (same : first.outerMarkup root = second.outerMarkup root) :
    Alike first second root root := by
  rw [firstSerializable.outerMarkup_root firstForest,
    secondSerializable.outerMarkup_root secondForest, String.ofList_inj] at same
  have parts := Fragment.markupAll_inj
    (fun _ listed => firstSerializable.fragment_of_mem firstForest listed)
    (fun _ listed => secondSerializable.fragment_of_mem secondForest listed)
    (firstForest.separated_parts (firstSerializable.separated root List.mem_cons_self))
    (secondForest.separated_parts (secondSerializable.separated root List.mem_cons_self)) same
  refine alike_of_fragment?_eq firstForest secondForest firstSerializable secondSerializable
    (.inl rfl) (.inl rfl) ?_
  rw [firstForest.fragment?_eq, secondForest.fragment?_eq, firstSerializable.root,
    secondSerializable.root, parts]

end Alike

/-- A style with raw text, a paragraph with an escaped text behind a void element, and a
comment, created from the top to the bottom. -/
def orderedPage : Tree := built
  [.createElement "html" [], .append root 1, .createElement "style" [("media", "a\"b")],
    .append 1 2, .create (.text "a<b"), .append 2 3, .createElement "p" [("hidden", "")],
    .append 1 4, .createElement "br" [], .append 4 5, .create (.text "A & B"), .append 4 6,
    .create (.comment "end"), .append root 7]

/-- The same document, created from the bottom to the top beside a node that is not part
of it. -/
def reversedPage : Tree := built
  [.create (.comment "end"), .create (.text "detached"), .create (.text "A & B"),
    .createElement "br" [], .createElement "p" [("hidden", "")], .create (.text "a<b"),
    .createElement "style" [("media", "a\"b")], .createElement "html" [], .append root 8,
    .append root 1, .append 8 7, .append 8 5, .append 7 6, .append 5 4, .append 5 3]

theorem alike_of_outerMarkup_eq_orderedPage :
    orderedPage.outerMarkup root = "<html><style media=\"a&quot;b\">a<b</style>" ++
      "<p hidden><br>A &amp; B</p></html><!--end-->" ∧
    reversedPage.outerMarkup root = orderedPage.outerMarkup root ∧
    orderedPage ≠ reversedPage ∧ Alike orderedPage reversedPage root root := by
  have orderedForest : orderedPage.Forest := (reachable_built (by decide +kernel)).forest
  have reversedForest : reversedPage.Forest := (reachable_built (by decide +kernel)).forest
  have ordered : orderedPage.Serializable :=
    { root := by decide +kernel
      kinds := by decide +kernel
      parents := by decide +kernel
      separated := by decide +kernel
      void := by decide +kernel
      raw := by decide +kernel }
  have reversed : reversedPage.Serializable :=
    { root := by decide +kernel
      kinds := by decide +kernel
      parents := by decide +kernel
      separated := by decide +kernel
      void := by decide +kernel
      raw := by decide +kernel }
  have same : orderedPage.outerMarkup root = reversedPage.outerMarkup root := by decide +kernel
  exact ⟨by decide +kernel, same.symm, by decide +kernel,
    alike_of_outerMarkup_eq orderedForest reversedForest ordered reversed same⟩

end Tree

end FirstPaint
