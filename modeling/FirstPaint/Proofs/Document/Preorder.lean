import FirstPaint.Proofs.Document.Calls
import FirstPaint.Proofs.Document.Subtrees

/-!
# The order of a walk downwards

The nodes below a node are listed by an iteration over a stack of pending nodes, the last of
which is on top. Each step yields the node on top and puts the children of that node in its
place, in reverse, so that the first of them is on top (`nextPending?`). The stack in the
opposite order is the one of `DownwardWalk`, which ends in a forest with the descendants of the
node (`yields_reverse_iff`), and no iteration can yield anything else (`Yields.unique`).

So what the iteration yields is the list in which every child is followed by its own
descendants. It holds the nodes whose way upwards meets the node, each of them once
(`descendants_agree`), and what is selected from it by a condition keeps that order.
-/

set_option autoImplicit false

namespace FirstPaint

namespace Tree

/-! ## Iterations -/

/-- One step of an iteration over pending nodes, the last of which is on top. -/
def nextPending? (tree : Tree) (pending : List NodeId) : Option (NodeId × List NodeId) :=
  pending.getLast?.map fun id => (id, pending.dropLast ++ (tree.children id).reverse)

/-- An iteration that ends, and what it yields until then. -/
inductive Yields (tree : Tree) : List NodeId → List NodeId → Prop where
  | finished {pending : List NodeId} (exhausted : tree.nextPending? pending = none) :
      Yields tree pending []
  | next {pending rest visited : List NodeId} {id : NodeId}
      (step : tree.nextPending? pending = some (id, rest)) (later : Yields tree rest visited) :
      Yields tree pending (id :: visited)

section Iterations

variable {tree : Tree} {id : NodeId} {pending first second : List NodeId}

theorem nextPending?_reverse_cons :
    tree.nextPending? (id :: pending).reverse =
      some (id, (tree.children id ++ pending).reverse) := by
  rw [nextPending?, List.getLast?_reverse, List.dropLast_reverse, List.reverse_append]
  rfl

/-- An iteration yields one list at most. -/
theorem Yields.unique (one : tree.Yields pending first) (other : tree.Yields pending second) :
    first = second := by
  induction one generalizing second with
  | finished exhausted =>
      cases other with
      | finished => rfl
      | next step => exact absurd (exhausted.symm.trans step) (by simp)
  | next step _ ih =>
      cases other with
      | finished exhausted => exact absurd (exhausted.symm.trans step) (by simp)
      | next sameStep later =>
          obtain ⟨rfl, rfl⟩ := Prod.mk.inj (Option.some.inj (step.symm.trans sameStep))
          exact congrArg (_ :: ·) (ih later)

/-- A stack with its top at the end is worked off like one with its top in front. -/
theorem yields_reverse_iff {visited : List NodeId} :
    tree.Yields pending.reverse visited ↔ tree.DownwardWalk pending visited := by
  constructor
  · intro yields
    generalize reversed : pending.reverse = stack at yields
    induction yields generalizing pending with
    | finished exhausted =>
        cases pending with
        | nil => exact .stop
        | cons id pending =>
            rw [← reversed, nextPending?_reverse_cons] at exhausted
            exact absurd exhausted (by simp)
    | next step _ ih =>
        cases pending with
        | nil =>
            rw [← reversed] at step
            exact absurd step (by simp [nextPending?])
        | cons id pending =>
            rw [← reversed, nextPending?_reverse_cons] at step
            obtain ⟨rfl, rest⟩ := Prod.mk.inj (Option.some.inj step)
            exact .step (ih rest)
  · intro walk
    induction walk with
    | stop => exact .finished rfl
    | step _ ih => exact .next nextPending?_reverse_cons ih

/-- An iteration upwards yields one list at most. -/
theorem UpwardWalk.unique {current : Option NodeId} (one : tree.UpwardWalk current first)
    (other : tree.UpwardWalk current second) : first = second := by
  induction one generalizing second with
  | stop => cases other; rfl
  | step _ ih =>
      cases other with
      | step rest => exact congrArg (_ :: ·) (ih rest)

end Iterations

/-! ## Descendants -/

/-- The list of the nodes below a node, as both ways of walking see it. -/
structure ListsBelow (tree : Tree) (top : NodeId) : Prop where
  /-- The iteration over a stack ends, and it yields the list. -/
  iterated : ∀ visited,
    tree.Yields (tree.children top).reverse visited ↔ visited = tree.descendants top
  /-- No node is listed twice. -/
  once : (tree.descendants top).Nodup
  /-- The members are the descendants. -/
  members : ∀ id, id ∈ tree.descendants top ↔ tree.isDescendant id top = true
  /-- They are the nodes from which the iteration upwards meets the node. -/
  met : ∀ id visited, tree.UpwardWalk (tree.parent? id) visited →
    (id ∈ tree.descendants top ↔ top ∈ visited)
  /-- Each child is followed by its own descendants before the next child comes. -/
  preorder : tree.descendants top =
    (tree.children top).flatMap fun child => child :: tree.descendants child

/-- The list of the elements below a node that satisfy a condition. -/
structure ListsElements (tree : Tree) (scope : NodeId) (condition : NodeId → Element → Bool) :
    Prop where
  once : (tree.elementsBelow scope condition).Nodup
  members : ∀ id, id ∈ tree.elementsBelow scope condition ↔
    tree.isDescendant id scope = true ∧
      ∃ element, tree.element? id = some element ∧ condition id element = true
  /-- They are in the order of all descendants. -/
  ordered : (tree.elementsBelow scope condition).Sublist (tree.descendants scope)

section Descendants

variable {tree : Tree}

theorem Forest.mem_descendants_iff_isDescendant (forest : tree.Forest) {id top : NodeId} :
    id ∈ tree.descendants top ↔ tree.isDescendant id top = true := by
  rw [forest.mem_descendants_iff, forest.isDescendant_iff]

theorem Forest.listsBelow (forest : tree.Forest) (top : NodeId) : tree.ListsBelow top where
  iterated visited := by
    have yields : tree.Yields (tree.children top).reverse (tree.descendants top) :=
      yields_reverse_iff.mpr (forest.downwardWalk top)
    constructor
    · intro other
      exact other.unique yields
    · rintro rfl
      exact yields
  once := forest.nodup_descendants top
  members _ := forest.mem_descendants_iff_isDescendant
  met id visited walk := by
    rw [walk.unique (forest.upwardWalk id), forest.mem_descendants_iff, forest.mem_ancestors_iff]
  preorder := forest.descendants_eq top

theorem Forest.listsElements (forest : tree.Forest) (scope : NodeId)
    (condition : NodeId → Element → Bool) : tree.ListsElements scope condition where
  once := (forest.nodup_descendants scope).filter _
  members id := by
    rw [elementsBelow, List.mem_filter, forest.mem_descendants_iff_isDescendant,
      Option.any_eq_true]
  ordered := List.filter_sublist

/-- **Walking downwards and walking upwards agree.** From every node of a reachable tree the
iteration downwards ends with each node below listed once, those from which the iteration upwards
meets that node, and each followed by the nodes below itself. Elements that are selected from
them come in the same order. -/
theorem descendants_agree (reachable : tree.Reachable) (top : NodeId) :
    tree.ListsBelow top ∧ ∀ condition, tree.ListsElements top condition :=
  ⟨reachable.forest.listsBelow top, reachable.forest.listsElements top⟩

/-- A tree in which the order of the nodes is not that of their names. -/
def nestedTree : Tree :=
  built [.createElement "section" [], .append root 1, .createElement "p" [], .append 1 2,
    .createElement "p" [], .createElement "div" [], .prepend 1 4, .append 4 3]

theorem descendants_agree_nestedTree :
    nestedTree.Reachable ∧ nestedTree.Yields [1] [1, 4, 3, 2] ∧
      nestedTree.isDescendant 3 1 = true ∧ 3 ∈ nestedTree.descendants 1 ∧
      nestedTree.elementsBelow root (fun _ element => element.tag == "p") = [3, 2] ∧
      nestedTree.ListsElements root fun _ element => element.tag == "p" := by
  have reachable : nestedTree.Reachable := reachable_built (by decide +kernel)
  obtain ⟨below, elements⟩ := descendants_agree reachable root
  have inner := (descendants_agree reachable 1).1
  have isDescendant : nestedTree.isDescendant 3 1 = true := by decide +kernel
  have top : nestedTree.children root = [1] := by decide +kernel
  refine ⟨reachable, ?_, isDescendant, (inner.members 3).mpr isDescendant, by decide +kernel,
    elements _⟩
  have iterated := (below.iterated [1, 4, 3, 2]).mpr (by decide +kernel)
  rwa [top] at iterated

end Descendants

end Tree

end FirstPaint
