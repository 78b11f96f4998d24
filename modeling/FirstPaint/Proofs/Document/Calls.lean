import FirstPaint.Proofs.Document.Relinking
import Mathlib.Data.List.Nodup

/-!
# Runs of calls

A document is worked on by calls of the editing operations. A tree is reachable
when finitely many calls make it out of the empty document, each of them naming
nodes of the store only. Nothing else is asked of a call: it may try to place a
node below itself, name a node that is attached elsewhere, or refer to a node that
is not a child.

Every reachable tree is a forest, each call within the store has a result on it,
and every walk through it ends (`wellLinked_of_reachable`).
-/

set_option autoImplicit false

namespace FirstPaint

namespace Tree

/-- One call of an editing operation. -/
inductive Call where
  | create (kind : NodeKind)
  | createElement (tag : String) (pairs : List (String × String))
  | append (parent child : NodeId)
  | insertBefore (parent child reference : NodeId)
  | prepend (parent child : NodeId)
  | removeChild (parent child : NodeId)
  | detach (id : NodeId)
  | releaseChildren (id : NodeId)
  | moveChildren (source target : NodeId)
  | appendText (id : NodeId) (addition : String)
  | setAttribute (id : NodeId) (name value : String)
  | eraseAttribute (id : NodeId) (name : String)
  | freshName (start : String)
  | ensureId (id : NodeId)
deriving DecidableEq, Repr

namespace Call

/-- The nodes that a call names. -/
def ids : Call → List NodeId
  | create _ | createElement _ _ | freshName _ => []
  | append parent child | prepend parent child | removeChild parent child => [parent, child]
  | insertBefore parent child reference => [parent, child, reference]
  | moveChildren source target => [source, target]
  | detach id | releaseChildren id | appendText id _ | setAttribute id _ _
  | eraseAttribute id _ | ensureId id => [id]

/-- A call that names nodes of the store only. -/
def Within (call : Call) (tree : Tree) : Prop := ∀ id ∈ call.ids, id < tree.size

instance (call : Call) (tree : Tree) : Decidable (call.Within tree) :=
  inferInstanceAs (Decidable (∀ id ∈ call.ids, id < tree.size))

/-- The tree after a call. There is none if the call would write to a node outside
the store. -/
def perform? (tree : Tree) : Call → Option Tree
  | create kind => some (tree.create kind).2
  | createElement tag pairs => some (tree.createElement tag pairs).2
  | append parent child => tree.append? parent child
  | insertBefore parent child reference => tree.insertBefore? parent child reference
  | prepend parent child => tree.prepend? parent child
  | removeChild parent child =>
    if tree.parent? child = some parent then tree.detach? child else some tree
  | detach id => tree.detach? id
  | releaseChildren id => tree.releaseChildren? id
  | moveChildren source target => tree.moveChildren? source target
  | appendText id addition => tree.appendText? id addition
  | setAttribute id name value => some (tree.setAttribute id name value)
  | eraseAttribute id name => some (tree.eraseAttribute id name)
  | freshName start => some (tree.freshName start).2
  | ensureId id => some (tree.ensureId id).2

end Call

/-- The trees that calls within the store make out of the empty document. -/
inductive Reachable : Tree → Prop where
  | empty : Reachable ∅
  | call {tree next : Tree} {call : Call} (reachable : Reachable tree)
      (within : call.Within tree) (performed : call.perform? tree = some next) : Reachable next

/-- Performs calls one after another as long as they stay within the store. -/
def replay? : Tree → List Call → Option Tree
  | tree, [] => some tree
  | tree, call :: rest =>
    if call.Within tree then (call.perform? tree).bind (replay? · rest) else none

theorem Reachable.of_replay? {calls : List Call} {tree next : Tree} (reachable : Reachable tree)
    (replayed : replay? tree calls = some next) : Reachable next := by
  induction calls generalizing tree with
  | nil => cases replayed; exact reachable
  | cons call rest ih =>
      unfold replay? at replayed
      split at replayed
      next within =>
        obtain ⟨middle, performed, remaining⟩ := Option.bind_eq_some_iff.mp replayed
        exact ih (reachable.call within performed) remaining
      next => exact absurd replayed (by simp)

/-- The tree that calls make out of the empty document. -/
def built (calls : List Call) : Tree := (replay? ∅ calls).getD ∅

theorem reachable_built {calls : List Call} (succeeds : (replay? ∅ calls).isSome = true) :
    Reachable (built calls) := by
  obtain ⟨tree, replayed⟩ := Option.isSome_iff_exists.mp succeeds
  rw [built, replayed]
  exact Reachable.empty.of_replay? replayed

/-! ## One call -/

theorem forest_empty : (∅ : Tree).Forest where
  mem_children_iff := by
    intro parent child
    have childless : (∅ : Tree).children parent = [] := by
      cases parent <;> rfl
    have parentless : (∅ : Tree).parent? child = none := by
      cases child <;> rfl
    rw [childless, parentless]
    simp
  nodup_children id := by
    cases id <;> exact List.nodup_nil
  rooted id := .top (by cases id <;> rfl)

/-- Generating an id changes the counters only. -/
theorem ensureId_sameLinks (tree : Tree) (id : NodeId) : SameLinks tree (tree.ensureId id).2 := by
  unfold ensureId
  split
  next => exact .refl tree
  next =>
    have fresh := freshId_nodes (tree.descendants root).length tree
    exact (SameLinks.of_nodes fresh).trans (SameLinks.setAttribute
      (freshId (tree.descendants root).length tree).2 id "id"
      (freshId (tree.descendants root).length tree).1)

section OneCall

variable {tree : Tree} {id : NodeId} (forest : tree.Forest)
include forest

/-- Adding text within the store has a result, whether a text node grows or a new
one is placed. -/
theorem Forest.appendText? (inside : id < tree.size) (addition : String) :
    ∃ after, tree.appendText? id addition = some after ∧ after.Forest := by
  have created : ∃ after, appendText?.appendNewText tree id addition = some after ∧
      after.Forest := by
    have newForest := forest.congr (SameLinks.create tree (.text addition))
    obtain ⟨after, done, attached⟩ :=
      newForest.append? (lt_size_create_of_lt _ inside) (lt_size_create _)
    exact ⟨after, done, attached.forest newForest⟩
  unfold Tree.appendText?
  split
  next last _ =>
    split
    next data _ =>
      exact ⟨_, rfl, forest.congr (SameLinks.withText tree last _)⟩
    next => exact created
  next => exact created

/-- **Every call within the store has a result, and the result is a forest.** -/
theorem Forest.perform? {call : Call} (within : call.Within tree) :
    ∃ next, call.perform? tree = some next ∧ next.Forest := by
  unfold Call.perform?
  cases call with
  | create kind => exact ⟨_, rfl, forest.congr (SameLinks.create tree kind)⟩
  | createElement tag pairs => exact ⟨_, rfl, forest.congr (SameLinks.create tree _)⟩
  | append parent child =>
      obtain ⟨next, done, attached⟩ :=
        forest.append? (within parent (by simp [Call.ids])) (within child (by simp [Call.ids]))
      exact ⟨next, done, attached.forest forest⟩
  | insertBefore parent child reference =>
      obtain ⟨next, done, attached⟩ := forest.insertBefore?
        (within parent (by simp [Call.ids])) (within child (by simp [Call.ids])) reference
      exact ⟨next, done, attached.forest forest⟩
  | prepend parent child =>
      obtain ⟨next, done, attached⟩ :=
        forest.prepend? (within parent (by simp [Call.ids])) (within child (by simp [Call.ids]))
      exact ⟨next, done, attached.forest forest⟩
  | removeChild parent child =>
      dsimp only
      split
      next =>
        obtain ⟨next, done, detached⟩ := forest.detach?_spec (within child (by simp [Call.ids]))
        exact ⟨next, done, detached.forest forest⟩
      next => exact ⟨tree, rfl, forest⟩
  | detach id =>
      obtain ⟨next, done, detached⟩ := forest.detach?_spec (within id (by simp [Call.ids]))
      exact ⟨next, done, detached.forest forest⟩
  | releaseChildren id =>
      obtain ⟨next, done, released⟩ :=
        forest.releaseChildren?_spec (within id (by simp [Call.ids]))
      exact ⟨next, done, released.forest forest⟩
  | moveChildren source target =>
      obtain ⟨next, done, -, nextForest⟩ := forest.moveChildren?
        (within source (by simp [Call.ids])) (within target (by simp [Call.ids]))
      exact ⟨next, done, nextForest⟩
  | appendText id addition => exact forest.appendText? (within id (by simp [Call.ids])) addition
  | setAttribute id name value =>
      exact ⟨_, rfl, forest.congr (SameLinks.setAttribute tree id name value)⟩
  | eraseAttribute id name =>
      exact ⟨_, rfl, forest.congr (SameLinks.modifyAttributes tree id _)⟩
  | freshName start => exact ⟨_, rfl, forest.congr (SameLinks.of_nodes rfl)⟩
  | ensureId id => exact ⟨_, rfl, forest.congr (ensureId_sameLinks tree id)⟩

end OneCall

/-! ## Runs -/

/-- Every reachable tree is a forest. -/
theorem Reachable.forest {tree : Tree} (reachable : Reachable tree) : tree.Forest := by
  induction reachable with
  | empty => exact forest_empty
  | call _ within performed ih =>
      obtain ⟨next, done, nextForest⟩ := ih.perform? within
      rw [performed] at done
      cases done
      exact nextForest

/-- What a caller may rely on about the links of a tree. -/
structure WellLinked (tree : Tree) : Prop where
  /-- Parents and their children are in the store. -/
  parent_inside : ∀ {child parent}, tree.parent? child = some parent →
    child < tree.size ∧ parent < tree.size
  /-- Listed children and their holders are in the store. -/
  child_inside : ∀ {parent child}, child ∈ tree.children parent →
    child < tree.size ∧ parent < tree.size
  /-- A node is listed as a child exactly by its parent. -/
  mirrored : ∀ {parent child}, child ∈ tree.children parent ↔ tree.parent? child = some parent
  /-- A listed child is listed once. -/
  once : ∀ {parent child}, child ∈ tree.children parent →
    (tree.children parent).count child = 1
  /-- No node lies below itself. -/
  acyclic : ∀ id, ¬ tree.Below id id
  /-- A way upwards has fewer nodes than the store. -/
  ancestors_short : ∀ {id}, id < tree.size → (tree.ancestors id).length < tree.size
  /-- Going upwards from parent to parent ends, with the ancestors. -/
  upwards_ends : ∀ id, UpwardWalk tree (tree.parent? id) (tree.ancestors id)
  /-- Working off a stack of children ends, with the descendants. -/
  downwards_ends : ∀ id, DownwardWalk tree (tree.children id) (tree.descendants id)
  /-- Reading the content of a node ends within as many levels as there are nodes. -/
  content_ends : ∀ id more, tree.fragmentUpTo (tree.size + more) id = tree.fragment? id
  /-- A call that names nodes of the store writes to nodes of the store only. -/
  calls_succeed : ∀ call : Call, call.Within tree → ∃ next, call.perform? tree = some next

/-- **Every reachable tree is well linked**: whatever calls within the store have
been made in whatever order, links stay in the store, agree with each other and
close no cycle, walks end, and the next call has a result. -/
theorem wellLinked_of_reachable {tree : Tree} (reachable : Reachable tree) : tree.WellLinked := by
  have forest := reachable.forest
  refine
    { parent_inside := fun link => ⟨lt_size_of_parent? link, forest.parent_lt link⟩
      child_inside := fun member => ⟨forest.child_lt member, lt_size_of_mem_children member⟩
      mirrored := forest.mem_children_iff
      once := fun {parent child} member => ?_
      acyclic := fun _ => forest.not_below_self
      ancestors_short := forest.length_ancestors_lt
      upwards_ends := forest.upwardWalk
      downwards_ends := forest.downwardWalk
      content_ends := forest.fragmentUpTo_eq_fragment?
      calls_succeed := fun call within => ?_ }
  · exact List.nodup_iff_count_eq_one.mp (forest.nodup_children parent) child member
  · obtain ⟨next, done, -⟩ := forest.perform? within
    exact ⟨next, done⟩

/-- Three nodes in a row below the document. Then the lowest takes in the one above
the middle, in vain; the middle is placed before a node that is no child; and the
lowest moves next to it. -/
def crossingCalls : List Call :=
  [.create (.comment "upper"), .create (.comment "middle"), .create (.comment "lower"),
    .append root 1, .append 1 2, .append 2 3, .append 3 1, .insertBefore root 2 3, .prepend root 3]

/-- The tree that the calls make. -/
def crossedTree : Tree := built crossingCalls

theorem wellLinked_crossedTree :
    crossedTree.children root = [3, 1, 2] ∧ Reachable crossedTree ∧ crossedTree.WellLinked := by
  have reachable : Reachable crossedTree := reachable_built (by decide +kernel)
  exact ⟨by decide +kernel, reachable, wellLinked_of_reachable reachable⟩

end Tree

end FirstPaint
