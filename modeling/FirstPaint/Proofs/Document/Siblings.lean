import FirstPaint.Proofs.Document.Calls
import FirstPaint.Proofs.Document.Subtrees

/-!
# Siblings

A node keeps no link to its siblings. They are found in the list of its parent, on both
sides of the place where the node stands first. In a forest a node stands in that list
once, so the list falls into what is in front of the node and what is behind it, and the
siblings are the last of the ones and the first of the others
(`Forest.previousSibling?_of_listed`, `Forest.nextSibling?_of_listed`).

All else follows from these two equations. The next sibling of one node is another one
exactly if the previous sibling of the other is the first, since both mean that the two
stand next to each other (`Neighbours`). A side is empty exactly at its end of the list.
And a node with a given list behind it is followed by the members of that list, one after
another, until none is left (`Succession`).
-/

set_option autoImplicit false

namespace FirstPaint

namespace Tree

/-- Two nodes stand next to each other among the children of a node. -/
def Neighbours (tree : Tree) (first second : NodeId) : Prop :=
  ∃ parent front back, tree.children parent = front ++ first :: second :: back

/-- An iteration that yields its current node and goes on with the one that is next to it, until
there is none. -/
inductive Succession (next : NodeId → Option NodeId) : Option NodeId → List NodeId → Prop where
  | stop : Succession next none []
  | step {current : NodeId} {visited : List NodeId}
      (rest : Succession next (next current) visited) :
      Succession next (some current) (current :: visited)

section Iterations

variable {next : NodeId → Option NodeId} {start : Option NodeId} {list : List NodeId}

/-- An iteration yields one list at most. -/
theorem Succession.unique {other : List NodeId} (one : Succession next start list)
    (another : Succession next start other) : list = other := by
  induction one generalizing other with
  | stop => cases another; rfl
  | step _ ih =>
      cases another with
      | step rest => exact congrArg (_ :: ·) (ih rest)

/-- An iteration that finds behind each member what is behind it in a list yields the list. -/
theorem succession_list
    (steps : ∀ {front id back}, list = front ++ id :: back → next id = back.head?) :
    Succession next list.head? list := by
  have onward : ∀ front back, list = front ++ back → Succession next back.head? back := by
    intro front back
    induction back generalizing front with
    | nil => exact fun _ => .stop
    | cons id back ih =>
        intro split
        refine .step ?_
        rw [steps split]
        exact ih (front ++ [id]) (by rw [split, List.append_assoc]; rfl)
  exact onward [] list rfl

end Iterations

/-! ## The place of a node -/

theorem idxOf?_of_first {id : NodeId} {front : List NodeId} (first : id ∉ front)
    (back : List NodeId) : (front ++ id :: back).idxOf? id = some front.length := by
  refine List.idxOf?_eq_some_iff.mpr ⟨by simp, by simp, fun place inFront same => first ?_⟩
  rw [List.getElem_append_left inFront] at same
  exact same ▸ List.getElem_mem inFront

section Places

variable {tree : Tree} {id parent first second : NodeId} {front back : List NodeId}

theorem placeAmongSiblings?_of_parentless (parentless : tree.parent? id = none) :
    tree.placeAmongSiblings? id = none := by
  rw [placeAmongSiblings?, parentless]
  rfl

theorem nextSibling?_of_parentless (parentless : tree.parent? id = none) :
    tree.nextSibling? id = none := by
  rw [nextSibling?, placeAmongSiblings?_of_parentless parentless]
  rfl

theorem previousSibling?_of_parentless (parentless : tree.parent? id = none) :
    tree.previousSibling? id = none := by
  rw [previousSibling?, placeAmongSiblings?_of_parentless parentless]
  rfl

namespace Forest

variable (forest : tree.Forest)
include forest

section Listed

variable (listed : tree.children parent = front ++ id :: back)
include listed

theorem parent?_of_listed : tree.parent? id = some parent :=
  forest.mem_children_iff.mp (by simp [listed])

theorem placeAmongSiblings?_of_listed :
    tree.placeAmongSiblings? id = some (front ++ id :: back, front.length) := by
  simp only [placeAmongSiblings?, forest.parent?_of_listed listed, listed,
    idxOf?_of_first (forest.not_mem_of_listed listed).1, Option.bind_eq_bind, Option.bind_some]
  rfl

/-- The next sibling is the first node behind. -/
theorem nextSibling?_of_listed : tree.nextSibling? id = back.head? := by
  rw [nextSibling?, forest.placeAmongSiblings?_of_listed listed]
  show (front ++ id :: back)[front.length + 1]? = back.head?
  rw [List.getElem?_append_right (Nat.le_add_right _ 1), Nat.add_sub_cancel_left,
    List.getElem?_cons_succ, List.head?_eq_getElem?]

/-- The previous sibling is the last node in front. -/
theorem previousSibling?_of_listed : tree.previousSibling? id = front.getLast? := by
  rw [previousSibling?, forest.placeAmongSiblings?_of_listed listed]
  show (if front.length = 0 then none else (front ++ id :: back)[front.length - 1]?) =
    front.getLast?
  rw [List.getLast?_eq_getElem?]
  split
  next empty => rw [List.length_eq_zero_iff.mp empty]; rfl
  next filled => exact List.getElem?_append_left (Nat.sub_one_lt filled)

theorem lastChild?_iff_of_listed : tree.lastChild? parent = some id ↔ back = [] := by
  rw [lastChild?, listed, List.getLast?_append_of_ne_nil _ (List.cons_ne_nil _ _)]
  constructor
  · intro isLast
    cases back with
    | nil => rfl
    | cons other back =>
        rw [List.getLast?_cons_cons] at isLast
        exact absurd (List.mem_of_getLast? isLast) (forest.not_mem_of_listed listed).2
  · rintro rfl
    rfl

theorem firstChild?_iff_of_listed : tree.firstChild? parent = some id ↔ front = [] := by
  rw [firstChild?, listed]
  constructor
  · intro isFirst
    cases front with
    | nil => rfl
    | cons other front =>
        obtain rfl : other = id := Option.some.inj isFirst
        exact absurd List.mem_cons_self (forest.not_mem_of_listed listed).1
  · rintro rfl
    rfl

end Listed

/-! ## Neighbours -/

theorem nextSibling?_eq_some_iff :
    tree.nextSibling? first = some second ↔ tree.Neighbours first second := by
  constructor
  · intro next
    cases link : tree.parent? first with
    | none => exact absurd ((nextSibling?_of_parentless link).symm.trans next) (by simp)
    | some parent =>
        obtain ⟨front, back, listed⟩ := forest.exists_listed link
        rw [forest.nextSibling?_of_listed listed] at next
        obtain ⟨back, rfl⟩ := List.head?_eq_some_iff.mp next
        exact ⟨parent, front, back, listed⟩
  · rintro ⟨parent, front, back, listed⟩
    exact forest.nextSibling?_of_listed listed

theorem previousSibling?_eq_some_iff :
    tree.previousSibling? second = some first ↔ tree.Neighbours first second := by
  constructor
  · intro previous
    cases link : tree.parent? second with
    | none => exact absurd ((previousSibling?_of_parentless link).symm.trans previous) (by simp)
    | some parent =>
        obtain ⟨front, back, listed⟩ := forest.exists_listed link
        rw [forest.previousSibling?_of_listed listed] at previous
        obtain ⟨front, rfl⟩ := List.getLast?_eq_some_iff.mp previous
        exact ⟨parent, front, back, by rw [listed, List.append_assoc]; rfl⟩
  · rintro ⟨parent, front, back, listed⟩
    have split : tree.children parent = (front ++ [first]) ++ second :: back := by
      rw [listed, List.append_assoc]
      rfl
    rw [forest.previousSibling?_of_listed split, List.getLast?_concat]

/-! ## Both ends -/

theorem nextSibling?_eq_none_iff : tree.nextSibling? id = none ↔
    tree.parent? id = none ∨
      ∃ parent, tree.parent? id = some parent ∧ tree.lastChild? parent = some id := by
  cases link : tree.parent? id with
  | none => exact iff_of_true (nextSibling?_of_parentless link) (.inl rfl)
  | some parent =>
      obtain ⟨front, back, listed⟩ := forest.exists_listed link
      rw [forest.nextSibling?_of_listed listed, List.head?_eq_none_iff,
        ← forest.lastChild?_iff_of_listed listed]
      simp

theorem previousSibling?_eq_none_iff : tree.previousSibling? id = none ↔
    tree.parent? id = none ∨
      ∃ parent, tree.parent? id = some parent ∧ tree.firstChild? parent = some id := by
  cases link : tree.parent? id with
  | none => exact iff_of_true (previousSibling?_of_parentless link) (.inl rfl)
  | some parent =>
      obtain ⟨front, back, listed⟩ := forest.exists_listed link
      rw [forest.previousSibling?_of_listed listed, List.getLast?_eq_none_iff,
        ← forest.firstChild?_iff_of_listed listed]
      simp

theorem succession_nextSibling? (parent : NodeId) :
    Succession tree.nextSibling? (tree.firstChild? parent) (tree.children parent) :=
  succession_list forest.nextSibling?_of_listed

theorem succession_previousSibling? (parent : NodeId) :
    Succession tree.previousSibling? (tree.lastChild? parent) (tree.children parent).reverse := by
  rw [lastChild?, List.getLast?_eq_head?_reverse]
  refine succession_list fun {front id back} split => ?_
  have listed : tree.children parent = back.reverse ++ id :: front.reverse := by
    rw [← List.reverse_reverse (tree.children parent), split]
    simp
  rw [forest.previousSibling?_of_listed listed, List.getLast?_reverse]

end Forest

end Places

/-! ## Going from sibling to sibling -/

/-- What a caller that goes from sibling to sibling can rely on. -/
structure SiblingsAgree (tree : Tree) : Prop where
  /-- A node that comes next has the other one before it. -/
  inverse : ∀ {first second},
    tree.nextSibling? first = some second ↔ tree.previousSibling? second = some first
  /-- What comes next stands next to the node in the list of children. -/
  adjacent : ∀ {first second},
    tree.nextSibling? first = some second ↔ tree.Neighbours first second
  /-- Nothing comes next for a node without a parent and for a last child. -/
  atEnd : ∀ {id}, tree.nextSibling? id = none ↔ tree.parent? id = none ∨
    ∃ parent, tree.parent? id = some parent ∧ tree.lastChild? parent = some id
  /-- Nothing comes before a node without a parent and before a first child. -/
  atStart : ∀ {id}, tree.previousSibling? id = none ↔ tree.parent? id = none ∨
    ∃ parent, tree.parent? id = some parent ∧ tree.firstChild? parent = some id
  /-- Going on from the first child ends, with the children in their order. -/
  forwards : ∀ parent visited, Succession tree.nextSibling? (tree.firstChild? parent) visited ↔
    visited = tree.children parent
  /-- Going back from the last child ends, with the children in the opposite order. -/
  backwards : ∀ parent visited, Succession tree.previousSibling? (tree.lastChild? parent) visited ↔
    visited = (tree.children parent).reverse

/-- **Going from sibling to sibling is consistent** in every reachable tree: forwards and
backwards undo each other, stop at the ends of the list and nowhere else, and pass every child
once. -/
theorem siblingsAgree_of_reachable {tree : Tree} (reachable : tree.Reachable) :
    tree.SiblingsAgree := by
  have forest := reachable.forest
  refine {
    inverse := forest.nextSibling?_eq_some_iff.trans forest.previousSibling?_eq_some_iff.symm
    adjacent := forest.nextSibling?_eq_some_iff
    atEnd := forest.nextSibling?_eq_none_iff
    atStart := forest.previousSibling?_eq_none_iff
    forwards := fun parent visited => ?_
    backwards := fun parent visited => ?_ }
  · have walk := forest.succession_nextSibling? parent
    exact ⟨fun other => other.unique walk, fun same => same ▸ walk⟩
  · have walk := forest.succession_previousSibling? parent
    exact ⟨fun other => other.unique walk, fun same => same ▸ walk⟩

theorem siblingsAgree_of_reachable_crossedTree :
    crossedTree.Reachable ∧ crossedTree.SiblingsAgree ∧
      crossedTree.previousSibling? 1 = some 3 ∧ crossedTree.Neighbours 3 1 ∧
      crossedTree.nextSibling? 2 = none ∧ crossedTree.nextSibling? root = none ∧
      Succession crossedTree.nextSibling? (some 3) [3, 1, 2] := by
  have reachable : crossedTree.Reachable := reachable_built (by decide +kernel)
  have agree := siblingsAgree_of_reachable reachable
  have next : crossedTree.nextSibling? 3 = some 1 := by decide +kernel
  refine ⟨reachable, agree, agree.inverse.mp next, agree.adjacent.mp next,
    agree.atEnd.mpr (.inr ⟨root, by decide +kernel, by decide +kernel⟩),
    agree.atEnd.mpr (.inl (by decide +kernel)), ?_⟩
  have first : crossedTree.firstChild? root = some 3 := by decide +kernel
  exact first ▸ (agree.forwards root [3, 1, 2]).mpr (by decide +kernel)

end Tree

end FirstPaint
