import FirstPaint.Proofs.Document.Forest
import Mathlib.Data.List.Nodup

/-!
# The subtree of a node

A node and what lies below it form its subtree. Subtrees of different children of one
node have nothing in common, since a node has one way upwards. So the descendants of a
node are listed without repetition (`nodup_descendants`), and they are the same in every
tree that agrees about the children of the nodes of the subtree
(`descendants_congr`).
-/

set_option autoImplicit false

namespace FirstPaint

namespace Tree

/-- The node is the top of a subtree or lies below it. -/
def Within (tree : Tree) (id top : NodeId) : Prop := id = top ∨ tree.Below id top

section Within

variable {tree : Tree} {id middle parent top : NodeId}

theorem Within.trans (lower : tree.Within id middle) (upper : tree.Within middle top) :
    tree.Within id top := by
  rcases lower with rfl | lower
  · exact upper
  · rcases upper with rfl | upper
    · exact .inr lower
    · exact .inr (lower.trans upper)

theorem Within.of_parent? (link : tree.parent? top = some parent) (within : tree.Within id top) :
    tree.Within id parent := by
  rcases within with rfl | below
  · exact .inr (below_of_parent? link)
  · exact .inr (below.trans (below_of_parent? link))

end Within

namespace Forest

variable {tree : Tree} (forest : tree.Forest)
include forest

/-- What a node lies below is not in the subtree of the node. -/
theorem not_within_of_below {id top : NodeId} (below : tree.Below id top) :
    ¬ tree.Within top id := by
  rintro (rfl | above)
  · exact forest.not_below_self below
  · exact forest.not_below_self (above.trans below)

/-- A node with a parent stands in the list of that parent. -/
theorem exists_listed {id parent : NodeId} (link : tree.parent? id = some parent) :
    ∃ front back, tree.children parent = front ++ id :: back :=
  List.append_of_mem (forest.mem_children_iff.mpr link)

/-- A node does not stand in its list a second time. -/
theorem not_mem_of_listed {id parent : NodeId} {front back : List NodeId}
    (listed : tree.children parent = front ++ id :: back) : id ∉ front ∧ id ∉ back := by
  have distinct := forest.nodup_children parent
  rw [listed, List.nodup_middle, List.nodup_cons, List.mem_append, not_or] at distinct
  exact distinct.1

/-- A child is not in the subtree of another child of its parent. -/
theorem not_below_sibling {first second parent : NodeId}
    (firstLink : tree.parent? first = some parent)
    (secondLink : tree.parent? second = some parent) : ¬ tree.Below first second := by
  intro below
  rcases (below_iff_of_parent? firstLink).mp below with rfl | above
  · exact forest.ne_of_parent? secondLink rfl
  · exact forest.not_below_self (above.trans (below_of_parent? secondLink))

/-- The subtrees of two children have no node in common. -/
theorem eq_of_within {id first second parent : NodeId}
    (firstLink : tree.parent? first = some parent)
    (secondLink : tree.parent? second = some parent) (inFirst : tree.Within id first)
    (inSecond : tree.Within id second) : first = second := by
  induction forest.rooted id with
  | top parentless =>
      rcases inFirst with rfl | below
      · rw [parentless] at firstLink
        exact absurd firstLink (by simp)
      · exact absurd below (not_below_of_parentless parentless)
  | under link _ ih =>
      rcases inFirst with rfl | belowFirst
      · rcases inSecond with same | below
        · exact same
        · exact absurd below (forest.not_below_sibling firstLink secondLink)
      · rcases inSecond with rfl | belowSecond
        · exact absurd belowFirst (forest.not_below_sibling secondLink firstLink)
        · exact ih ((below_iff_of_parent? link).mp belowFirst)
            ((below_iff_of_parent? link).mp belowSecond)

theorem mem_cons_descendants_iff {id top : NodeId} :
    id ∈ top :: tree.descendants top ↔ tree.Within id top := by
  rw [List.mem_cons, forest.mem_descendants_iff]
  exact Iff.rfl

/-- No node is listed twice among the descendants of a node. -/
theorem nodup_descendants (id : NodeId) : (tree.descendants id).Nodup := by
  refine forest.downward (motive := fun id => (tree.descendants id).Nodup) ?_ id
  intro id ih
  rw [forest.descendants_eq, List.nodup_flatMap]
  constructor
  · intro child member
    refine List.nodup_cons.mpr ⟨fun below => ?_, ih child member⟩
    exact forest.not_below_self (forest.mem_descendants_iff.mp below)
  · refine (forest.nodup_children id).imp_of_mem ?_
    intro first second firstMember secondMember different node inFirst inSecond
    have withinFirst : tree.Within node first := forest.mem_cons_descendants_iff.mp inFirst
    have withinSecond : tree.Within node second := forest.mem_cons_descendants_iff.mp inSecond
    exact different (forest.eq_of_within (forest.mem_children_iff.mp firstMember)
      (forest.mem_children_iff.mp secondMember) withinFirst withinSecond)

/-- The descendants of a node depend on the children of the nodes of its subtree. -/
theorem descendants_congr {after : Tree} (afterForest : after.Forest) {top : NodeId}
    (same : ∀ id, tree.Within id top → after.children id = tree.children id) :
    after.descendants top = tree.descendants top := by
  revert same
  refine forest.downward (motive := fun top =>
    (∀ id, tree.Within id top → after.children id = tree.children id) →
      after.descendants top = tree.descendants top) ?_ top
  intro top ih same
  rw [afterForest.descendants_eq, forest.descendants_eq, same top (.inl rfl)]
  refine List.flatMap_congr fun child member => ?_
  have link := forest.mem_children_iff.mp member
  rw [ih child member fun id within => same id (within.of_parent? link)]

end Forest

end Tree

end FirstPaint
