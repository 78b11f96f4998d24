import FirstPaint.Proofs.Document.Calls
import FirstPaint.Proofs.Document.Subtrees

/-!
# Children that come and go

What an insertion or a removal does to a tree, exactly. A placement is refused if the parent
is the node itself or lies below it. Otherwise the node leaves the list of its former parent,
which loses that one entry (`Loses`), and comes into the list of the new parent, from which it
has been taken before if it was there already (`Moved`). Everything else is as it was. So a
node that changes its place among its siblings is never counted at the old place, whether that
is in front of the reference or behind it.

A node is put right before a reference, or at the end if the reference is not in the list
(`InFront`). The list is read after the node has left it. For a node that is put before the
first child this matters: if it is that child itself, the reference is gone when it is looked
for, and the node comes last (`prepend?_first_iff`).
-/

set_option autoImplicit false

namespace FirstPaint

namespace Tree

/-! ## Lists of children -/

/-- A list that has lost a member which it held once. -/
inductive Loses (member : NodeId) : List NodeId → List NodeId → Prop where
  | once {front back : List NodeId} (absent : member ∉ front ++ back) :
      Loses member (front ++ member :: back) (front ++ back)

/-- A list into which a member has come right before the first occurrence of a reference, or
at the end if the reference is not in the list. -/
inductive InFront (reference member : NodeId) : List NodeId → List NodeId → Prop where
  | before {front back : List NodeId} (first : reference ∉ front) :
      InFront reference member (front ++ reference :: back)
        (front ++ member :: reference :: back)
  | last {list : List NodeId} (absent : reference ∉ list) :
      InFront reference member list (list ++ [member])

section Lists

variable {reference member : NodeId} {list : List NodeId}

/-- Taking all occurrences of a member away takes one away if there are no more. -/
theorem loses_filter (distinct : list.Nodup) (listed : member ∈ list) :
    Loses member list (list.filter (· != member)) := by
  obtain ⟨front, back, rfl⟩ := List.append_of_mem listed
  have absent : member ∉ front ++ back := (List.nodup_cons.mp (List.nodup_middle.mp distinct)).1
  rw [List.filter_append, List.filter_cons_of_neg (by simp), ← List.filter_append,
    filter_ne_of_not_mem absent]
  exact .once absent

theorem listedBefore_of_first {front : List NodeId} (first : reference ∉ front)
    (back : List NodeId) :
    listedBefore reference member (front ++ reference :: back) =
      front ++ member :: reference :: back := by
  induction front with
  | nil => exact listedBefore_head reference member back
  | cons other front ih =>
      rw [List.mem_cons, not_or] at first
      have later := ih first.2
      have different : (other == reference) = false := beq_eq_false_iff_ne.mpr (Ne.symm first.1)
      unfold listedBefore at later ⊢
      rw [List.cons_append, List.idxOf?_cons, different]
      obtain ⟨place, found⟩ : ∃ place, (front ++ reference :: back).idxOf? reference = some place :=
        Option.isSome_iff_exists.mp (List.isSome_idxOf?.mpr (by simp))
      rw [found] at later ⊢
      exact congrArg (other :: ·) later

/-- The computed list is the only one with the member before the reference. -/
theorem inFront_iff {arranged : List NodeId} :
    InFront reference member list arranged ↔ arranged = listedBefore reference member list := by
  constructor
  · intro inFront
    cases inFront with
    | before first => exact (listedBefore_of_first first _).symm
    | last absent => exact (listedBefore_of_not_mem absent).symm
  · rintro rfl
    by_cases listed : reference ∈ list
    · obtain ⟨front, back, rfl, first⟩ := List.eq_append_cons_of_mem listed
      rw [listedBefore_of_first first]
      exact .before first
    · rw [listedBefore_of_not_mem listed]
      exact .last listed

end Lists

/-! ## Insertion -/

/-- A tree in which a node has come to a parent. How the new list of the parent arises from
the children that the parent had besides the node is described by a relation. -/
structure Moved (before after : Tree) (parent child : NodeId)
    (arranged : List NodeId → List NodeId → Prop) : Prop extends SameContent before after where
  parent? : after.parent? child = some parent
  children : arranged ((before.children parent).filter (· != child)) (after.children parent)
  former : ∀ {holder}, holder ≠ parent → before.parent? child = some holder →
    Loses child (before.children holder) (after.children holder)
  otherParents : ∀ {other}, other ≠ child → after.parent? other = before.parent? other
  otherChildren : ∀ {holder}, holder ≠ parent → before.parent? child ≠ some holder →
    after.children holder = before.children holder

/-- A tree in which a child has been taken away from its parent. -/
structure Removed (before after : Tree) (parent child : NodeId) : Prop
    extends SameContent before after where
  parent? : after.parent? child = none
  children : Loses child (before.children parent) (after.children parent)
  otherParents : ∀ {other}, other ≠ child → after.parent? other = before.parent? other
  otherChildren : ∀ {holder}, holder ≠ parent → after.children holder = before.children holder

section Insertion

variable {tree after : Tree} {parent child : NodeId} {arrange : List NodeId → List NodeId}
  {arranged : List NodeId → List NodeId → Prop}

theorem Placed.moved (placed : Placed tree after parent child arrange) (forest : tree.Forest)
    (spec : arranged ((tree.children parent).filter (· != child))
      (arrange ((tree.children parent).filter (· != child)))) :
    Moved tree after parent child arranged where
  toSameContent := placed.toSameContent
  parent? := by rw [placed.parent?, if_pos rfl]
  children := by
    rw [placed.children, if_pos rfl]
    exact spec
  former different link := by
    rw [placed.children, if_neg different]
    exact loses_filter (forest.nodup_children _) (forest.mem_children_iff.mpr link)
  otherParents different := by rw [placed.parent?, if_neg different]
  otherChildren different elsewhere := by
    rw [placed.children, if_neg different, forest.filter_children elsewhere]

theorem Detached.removed (detached : Detached tree after child) (forest : tree.Forest)
    (link : tree.parent? child = some parent) : Removed tree after parent child where
  toSameContent := detached.toSameContent
  parent? := by rw [detached.parent?, if_pos rfl]
  children := by
    rw [detached.children]
    exact loses_filter (forest.nodup_children _) (forest.mem_children_iff.mpr link)
  otherParents different := by rw [detached.parent?, if_neg different]
  otherChildren different := by
    rw [detached.children]
    exact forest.filter_children (by simpa [link] using Ne.symm different)

namespace Forest

variable (forest : tree.Forest)
include forest

theorem mayPlace_iff_not_within :
    tree.mayPlace parent child = true ↔ ¬ tree.Within parent child := by
  rw [forest.mayPlace_iff, Within, not_or]

/-- A node is not placed below itself. -/
theorem place?_of_within (within : tree.Within parent child) :
    tree.place? parent child arrange = some tree := by
  refine place?_of_refused (Bool.eq_false_iff.mpr fun may => ?_)
  exact forest.mayPlace_iff_not_within.mp may within

/-- A node of the store is placed below any other that is not below it. -/
theorem place?_moved (parentInside : parent < tree.size) (childInside : child < tree.size)
    (apart : ¬ tree.Within parent child)
    (spec : arranged ((tree.children parent).filter (· != child))
      (arrange ((tree.children parent).filter (· != child)))) :
    ∃ after, tree.place? parent child arrange = some after ∧
      Moved tree after parent child arranged := by
  obtain ⟨after, done, placed⟩ := forest.place?_spec parentInside childInside
    (forest.mayPlace_iff_not_within.mpr apart) arrange
  exact ⟨after, done, placed.moved forest spec⟩

theorem removeChild_of_mem (listed : child ∈ tree.children parent) :
    tree.detach? child = some (tree.removeChild parent child) ∧
      Removed tree (tree.removeChild parent child) parent child := by
  have link := forest.mem_children_iff.mp listed
  obtain ⟨after, done, detached⟩ := forest.detach?_spec (lt_size_of_parent? link)
  rw [removeChild, if_pos link, done, Option.getD_some]
  exact ⟨rfl, detached.removed forest link⟩

theorem removeChild_of_not_mem (unlisted : child ∉ tree.children parent) :
    tree.removeChild parent child = tree := by
  rw [removeChild, if_neg fun link => unlisted (forest.mem_children_iff.mpr link)]

theorem takeChildren?_released (inside : parent < tree.size) :
    ∃ after, tree.takeChildren? parent = some (tree.children parent, after) ∧
      Released tree after parent := by
  obtain ⟨after, done, released⟩ := forest.releaseChildren?_spec inside
  refine ⟨after, ?_, released⟩
  rw [takeChildren?, done]
  rfl

end Forest

end Insertion

/-- What the edits of one parent and one node do to a tree. -/
structure EditsExactly (tree : Tree) (parent child : NodeId) : Prop where
  /-- A placement below the node itself changes nothing. -/
  refused : tree.Within parent child → tree.append? parent child = some tree ∧
    ∀ reference, tree.insertBefore? parent child reference = some tree
  /-- An appended node comes behind the other children. -/
  appended : ¬ tree.Within parent child → ∃ after, tree.append? parent child = some after ∧
    Moved tree after parent child fun others listed => listed = others ++ [child]
  /-- An inserted node comes right before the reference, or last without one. -/
  inserted : ¬ tree.Within parent child → ∀ reference,
    ∃ after, tree.insertBefore? parent child reference = some after ∧
      Moved tree after parent child (InFront reference child)
  /-- A child is taken away. -/
  removed : child ∈ tree.children parent →
    tree.detach? child = some (tree.removeChild parent child) ∧
      Removed tree (tree.removeChild parent child) parent child
  /-- What is no child is not taken away. -/
  kept : child ∉ tree.children parent → tree.removeChild parent child = tree
  /-- The children that are taken are all there were, and nothing else is detached. -/
  taken : ∃ after, tree.takeChildren? parent = some (tree.children parent, after) ∧
    Released tree after parent

/-- **Insertions and removals do exactly what they are asked to.** -/
theorem edits_exactly {tree : Tree} (reachable : tree.Reachable) {parent child : NodeId}
    (parentInside : parent < tree.size) (childInside : child < tree.size) :
    tree.EditsExactly parent child := by
  have forest := reachable.forest
  exact {
    refused := fun within =>
      ⟨forest.place?_of_within within, fun _ => forest.place?_of_within within⟩
    appended := fun apart => forest.place?_moved parentInside childInside apart rfl
    inserted := fun apart _ =>
      forest.place?_moved parentInside childInside apart (inFront_iff.mpr rfl)
    removed := forest.removeChild_of_mem
    kept := forest.removeChild_of_not_mem
    taken := forest.takeChildren?_released parentInside }

/-- A list of three entries, the first of which has a node below it. -/
def listTree : Tree :=
  built [.createElement "ul" [], .append root 1, .createElement "li" [], .append 1 2,
    .createElement "li" [], .append 1 3, .createElement "li" [], .append 1 4,
    .createElement "b" [], .append 2 5]

theorem edits_exactly_listTree :
    listTree.Reachable ∧ listTree.children 1 = [2, 3, 4] ∧
      (∃ after, listTree.append? 1 2 = some after ∧ after.children 1 = [3, 4, 2]) ∧
      (∃ after, listTree.insertBefore? 1 5 3 = some after ∧ after.children 1 = [2, 5, 3, 4] ∧
        Loses 5 (listTree.children 2) (after.children 2)) ∧
      listTree.append? 5 2 = some listTree ∧
      Loses 3 (listTree.children 1) ((listTree.removeChild 1 3).children 1) ∧
      listTree.removeChild 2 3 = listTree := by
  have reachable : listTree.Reachable := reachable_built (by decide +kernel)
  have forest := reachable.forest
  have entry : listTree.EditsExactly 1 2 :=
    edits_exactly reachable (by decide +kernel) (by decide +kernel)
  have inner : listTree.EditsExactly 1 5 :=
    edits_exactly reachable (by decide +kernel) (by decide +kernel)
  have middle : listTree.EditsExactly 1 3 :=
    edits_exactly reachable (by decide +kernel) (by decide +kernel)
  obtain ⟨last, appended, lastMoved⟩ :=
    entry.appended (forest.mayPlace_iff_not_within.mp (by decide +kernel))
  obtain ⟨front, inserted, frontMoved⟩ :=
    inner.inserted (forest.mayPlace_iff_not_within.mp (by decide +kernel)) 3
  refine ⟨reachable, by decide +kernel, ⟨last, appended, ?_⟩, ⟨front, inserted, ?_, ?_⟩, ?_, ?_, ?_⟩
  · rw [lastMoved.children]
    decide +kernel
  · rw [inFront_iff.mp frontMoved.children]
    decide +kernel
  · exact frontMoved.former (by decide) (by decide +kernel)
  · exact (edits_exactly reachable (by decide +kernel) (by decide +kernel)).refused
      (.inr (below_of_parent? (by decide +kernel))) |>.1
  · exact (middle.removed (by decide +kernel)).2.children
  · exact (edits_exactly reachable (by decide +kernel) (by decide +kernel)).kept
      (by decide +kernel)

/-! ## The first place -/

section First

variable {tree : Tree} {parent child : NodeId}

/-- A node that is put before the first child: the first child itself comes last, any other
node comes first. -/
theorem Forest.prepend?_moved (forest : tree.Forest) (parentInside : parent < tree.size)
    (childInside : child < tree.size) (apart : ¬ tree.Within parent child) :
    ∃ after, tree.prepend? parent child = some after ∧
      Moved tree after parent child fun others listed =>
        listed = if tree.firstChild? parent = some child then others ++ [child]
          else child :: others := by
  obtain ⟨after, arrange, done, placed, -, arranged⟩ :=
    forest.prepend?_placed parentInside childInside (forest.mayPlace_iff_not_within.mpr apart)
  exact ⟨after, done, placed.moved forest arranged⟩

/-- The first child has others behind it unless it is the only one. -/
theorem Forest.others_eq_nil_iff (forest : tree.Forest)
    (isFirst : tree.firstChild? parent = some child) :
    (tree.children parent).filter (· != child) = [] ↔ tree.children parent = [child] := by
  obtain ⟨rest, listed⟩ := List.head?_eq_some_iff.mp isFirst
  have distinct := forest.nodup_children parent
  rw [listed] at distinct ⊢
  rw [List.filter_cons_of_neg (by simp), filter_ne_of_not_mem (List.nodup_cons.mp distinct).1,
    List.cons_eq_cons, and_iff_right rfl]

/-- **A node that is put before the first child comes first, unless it is the first of several
children itself.** Then it comes last. Nothing but its place and its parent changes. -/
theorem prepend?_first_iff (reachable : tree.Reachable) (parentInside : parent < tree.size)
    (childInside : child < tree.size) (apart : ¬ tree.Within parent child) :
    ∃ after, tree.prepend? parent child = some after ∧
      Moved tree after parent child (fun others listed =>
        listed = if tree.firstChild? parent = some child then others ++ [child]
          else child :: others) ∧
      (after.children parent = child :: (tree.children parent).filter (· != child) ↔
        (tree.firstChild? parent = some child → tree.children parent = [child])) := by
  have forest := reachable.forest
  obtain ⟨after, done, moved⟩ := forest.prepend?_moved parentInside childInside apart
  refine ⟨after, done, moved, ?_⟩
  rw [moved.children]
  split
  next isFirst =>
    rw [← forest.others_eq_nil_iff isFirst, imp_iff_right isFirst]
    -- The node itself is not among the others, so it is not the first of them.
    have absent : child ∉ (tree.children parent).filter (· != child) := by simp
    constructor
    · intro same
      cases others : (tree.children parent).filter (· != child) with
      | nil => rfl
      | cons other rest =>
          rw [others, List.cons_append, List.cons_eq_cons] at same
          exact absurd (others ▸ same.1 ▸ List.mem_cons_self) absent
    · intro alone
      rw [alone]
      rfl
  next notFirst => exact iff_of_true rfl fun isFirst => absurd isFirst notFirst

theorem prepend?_first_iff_listTree :
    (∃ after, listTree.prepend? 1 4 = some after ∧ after.children 1 = [4, 2, 3]) ∧
      ∃ after, listTree.prepend? 1 2 = some after ∧ after.children 1 = [3, 4, 2] := by
  have reachable : listTree.Reachable := reachable_built (by decide +kernel)
  have forest := reachable.forest
  have list : 1 < listTree.size := by decide +kernel
  have lastEntry : 4 < listTree.size := by decide +kernel
  have firstEntry : 2 < listTree.size := by decide +kernel
  obtain ⟨first, firstDone, -, iff⟩ := prepend?_first_iff reachable list lastEntry
    (forest.mayPlace_iff_not_within.mp (by decide +kernel))
  obtain ⟨last, lastDone, moved, -⟩ := prepend?_first_iff reachable list firstEntry
    (forest.mayPlace_iff_not_within.mp (by decide +kernel))
  refine ⟨⟨first, firstDone, ?_⟩, ⟨last, lastDone, ?_⟩⟩
  · rw [iff.mpr fun isFirst => absurd isFirst (by decide +kernel)]
    decide +kernel
  · rw [moved.children]
    decide +kernel

/-- A node can fail to come first although it is put before the first child. -/
theorem prepend?_not_first :
    ¬ ∀ (tree : Tree) (parent child : NodeId), tree.Reachable → parent < tree.size →
      child < tree.size → ¬ tree.Within parent child →
        ∃ after, tree.prepend? parent child = some after ∧
          after.children parent = child :: (tree.children parent).filter (· != child) := by
  intro claim
  have reachable : listTree.Reachable := reachable_built (by decide +kernel)
  obtain ⟨after, done, listed⟩ := claim listTree 1 2 reachable (by decide +kernel)
    (by decide +kernel) (reachable.forest.mayPlace_iff_not_within.mp (by decide +kernel))
  have computed : (listTree.prepend? 1 2).map (·.children 1) = some [3, 4, 2] := by
    decide +kernel
  rw [done, Option.map_some, listed] at computed
  exact absurd computed (by decide +kernel)

end First

end Tree

end FirstPaint
