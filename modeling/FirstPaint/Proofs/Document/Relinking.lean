import FirstPaint.Proofs.Document.Forest
import Mathlib.Tactic.ByContra

/-!
# Detaching and placing in a forest

What the edits of links do in a forest, read through parents and children. A
detached node loses its parent and its place in the list of that parent
(`Detached`). A placed node gets a new parent, whose list is arranged anew after
the node has been detached (`Placed`). Both leave the kinds of nodes, the size of
the store and the counters as they are (`SameContent`), have a result for all
nodes of the store, and lead to a forest again.

That a placement closes no cycle rests on the check made before it: the new
parent is neither the placed node nor below it, so the way upwards from the new
parent does not pass the changed link.
-/

set_option autoImplicit false

namespace FirstPaint

namespace Tree

/-! ## Edits that change links only -/

/-- Two trees with the same store of kinds and the same counters. -/
structure SameContent (before after : Tree) : Prop where
  size : after.size = before.size
  kind? : ∀ id, after.kind? id = before.kind? id
  counters : after.counters = before.counters

namespace SameContent

theorem refl (tree : Tree) : SameContent tree tree := ⟨rfl, fun _ => rfl, rfl⟩

theorem trans {first second third : Tree} (earlier : SameContent first second)
    (later : SameContent second third) : SameContent first third where
  size := later.size.trans earlier.size
  kind? id := (later.kind? id).trans (earlier.kind? id)
  counters := later.counters.trans earlier.counters

theorem withParent (tree : Tree) (id : NodeId) (parent? : Option NodeId) :
    SameContent tree (tree.modify id (Node.withParent parent?)) :=
  ⟨size_modify _, fun _ => kind?_withParent parent?, rfl⟩

theorem withChildren (tree : Tree) (id : NodeId) (arrange : List NodeId → List NodeId) :
    SameContent tree (tree.modify id (Node.withChildren arrange)) :=
  ⟨size_modify _, fun _ => kind?_withChildren arrange, rfl⟩

end SameContent

/-! ## Detaching -/

theorem filter_ne_of_not_mem {member : NodeId} {list : List NodeId} (absent : member ∉ list) :
    list.filter (· != member) = list := by
  refine List.filter_eq_self.mpr fun other listed => ?_
  rw [bne_iff_ne]
  rintro rfl
  exact absent listed

/-- A tree in which a node has been taken away from its parent. -/
structure Detached (before after : Tree) (id : NodeId) : Prop extends SameContent before after where
  parent? : ∀ other, after.parent? other = if other = id then none else before.parent? other
  children : ∀ other, after.children other = (before.children other).filter (· != id)

section Detach

variable {tree after : Tree} {id : NodeId}

theorem detach?_of_parentless (inside : id < tree.size) (parentless : tree.parent? id = none) :
    tree.detach? id = some tree := by
  obtain ⟨node, found⟩ := tree.node?_eq_some_of_lt inside
  have none : node.parent? = none := by simpa [Tree.parent?, found] using parentless
  simp [detach?, found, none]

theorem detach?_of_parent? {parent : NodeId} (link : tree.parent? id = some parent)
    (parentInside : parent < tree.size) :
    tree.detach? id = some ((tree.modify id (Node.withParent none)).modify parent
      (Node.withChildren (List.filter (· != id)))) := by
  have inside := lt_size_of_parent? link
  obtain ⟨node, found, above⟩ := Option.bind_eq_some_iff.mp link
  simp only [detach?, found, above, modify?_eq_some _ inside, Option.bind_eq_bind,
    Option.bind_some]
  exact modify?_eq_some _ (by rwa [size_modify])

/-- A node is listed by its parent alone. -/
theorem Forest.filter_children {other : NodeId} (forest : tree.Forest)
    (elsewhere : tree.parent? id ≠ some other) :
    (tree.children other).filter (· != id) = tree.children other :=
  filter_ne_of_not_mem fun listed => elsewhere (forest.mem_children_iff.mp listed)

/-- Detaching a node of the store has a result. -/
theorem Forest.detach?_spec (forest : tree.Forest) (inside : id < tree.size) :
    ∃ after, tree.detach? id = some after ∧ Detached tree after id := by
  cases link : tree.parent? id with
  | none =>
      refine ⟨tree, detach?_of_parentless inside link, SameContent.refl tree, ?_, ?_⟩
      · intro other
        split
        next same => rw [same, link]
        next => rfl
      · intro other
        exact (forest.filter_children (by simp [link])).symm
  | some parent =>
      have inside := lt_size_of_parent? link
      have parentInside := forest.parent_lt link
      refine ⟨_, detach?_of_parent? link parentInside, ?_, ?_, ?_⟩
      · exact (SameContent.withParent tree id none).trans (SameContent.withChildren _ parent _)
      · intro other
        rw [parent?_withChildren, parent?_withParent none inside]
      · intro other
        rw [children_withChildren _ (by rwa [size_modify]), children_withParent,
          children_withParent]
        split
        next same => rw [same]
        next different => exact (forest.filter_children (by simp [link, Ne.symm different])).symm

theorem Forest.detached (forest : tree.Forest) (id : NodeId) :
    Detached tree (tree.detach id) id := by
  by_cases inside : id < tree.size
  · obtain ⟨after, done, spec⟩ := forest.detach?_spec inside
    simpa only [detach, done, Option.getD_some] using spec
  · have outside := Nat.le_of_not_lt inside
    have nothing : tree.detach id = tree := by
      simp [detach, detach?, (tree.node?_eq_none_iff id).mpr outside]
    rw [nothing]
    have parentless := parent?_of_size_le outside
    refine ⟨SameContent.refl tree, fun other => ?_, fun other => ?_⟩
    · split
      next same => rw [same, parentless]
      next => rfl
    · exact (forest.filter_children (by simp [parentless])).symm

/-- Taking a node away from its parent leaves a forest. -/
theorem Detached.forest (detached : Detached tree after id) (forest : tree.Forest) :
    after.Forest where
  mem_children_iff := by
    intro parent child
    rw [detached.children, detached.parent?, List.mem_filter, forest.mem_children_iff]
    by_cases same : child = id <;> simp [same]
  nodup_children other := by
    rw [detached.children]
    exact (forest.nodup_children other).filter _
  rooted other := by
    refine (forest.rooted other).mono fun child parent link => ?_
    rw [detached.parent?] at link
    split at link
    next => exact absurd link (by simp)
    next => exact link

end Detach

/-! ## Placing -/

/-- A tree in which a node has been detached and then linked to a parent, whose
list of children is the arranged one. -/
structure Placed (before after : Tree) (parent child : NodeId)
    (arrange : List NodeId → List NodeId) : Prop extends SameContent before after where
  parent? : ∀ other, after.parent? other =
    if other = child then some parent else before.parent? other
  children : ∀ other, after.children other =
    if other = parent then arrange ((before.children parent).filter (· != child))
    else (before.children other).filter (· != child)

section Place

variable {tree after : Tree} {parent child : NodeId} {arrange : List NodeId → List NodeId}

theorem Forest.mayPlace_iff (forest : tree.Forest) :
    tree.mayPlace parent child = true ↔ parent ≠ child ∧ ¬ tree.Below parent child := by
  rw [mayPlace, Bool.and_eq_true, bne_iff_ne, Bool.not_eq_true', ← forest.isDescendant_iff,
    Bool.not_eq_true]

/-- A placement that is refused changes nothing. -/
theorem place?_of_refused (refused : tree.mayPlace parent child = false) :
    tree.place? parent child arrange = some tree := by
  simp [place?, refused]

/-- A placement that is not refused has a result if both nodes are in the store. -/
theorem Forest.place?_spec (forest : tree.Forest) (parentInside : parent < tree.size)
    (childInside : child < tree.size) (may : tree.mayPlace parent child = true)
    (arrange : List NodeId → List NodeId) :
    ∃ after, tree.place? parent child arrange = some after ∧
      Placed tree after parent child arrange := by
  obtain ⟨detached, done, spec⟩ := forest.detach?_spec childInside
  have parentStays : parent < detached.size := by rwa [spec.size]
  have listedStays : child < (detached.modify parent (Node.withChildren arrange)).size := by
    rwa [size_modify, spec.size]
  refine ⟨(detached.modify parent (Node.withChildren arrange)).modify child
    (Node.withParent (some parent)), ?_, ?_, ?_, ?_⟩
  · simp only [Tree.place?, may, if_true, done, Option.bind_eq_bind, Option.bind_some,
      modify?_eq_some _ parentStays]
    exact modify?_eq_some _ listedStays
  · exact spec.toSameContent.trans ((SameContent.withChildren detached parent arrange).trans
      (SameContent.withParent _ child _))
  · intro other
    rw [parent?_withParent _ listedStays, parent?_withChildren, spec.parent?]
    split <;> rfl
  · intro other
    rw [children_withParent, children_withChildren _ parentStays, spec.children, spec.children]

/-- A way upwards that does not pass a node stays when only the parent of that
node changes. -/
theorem Rooted.of_not_below {id : NodeId} (rooted : tree.Rooted id) (different : id ≠ child)
    (apart : ¬ tree.Below id child)
    (same : ∀ other, other ≠ child → after.parent? other = tree.parent? other) :
    after.Rooted id := by
  induction rooted with
  | top parentless => exact .top (by rwa [same _ different])
  | under link _ ih =>
      rw [below_iff_of_parent? link, not_or] at apart
      exact .under (by rwa [same _ different]) (ih apart.1 apart.2)

/-- Placing a node where it may be placed leaves a forest, however the new list is
arranged. -/
theorem Placed.forest (placed : Placed tree after parent child arrange) (forest : tree.Forest)
    (may : tree.mayPlace parent child = true)
    (permuted : ∀ list, (arrange list).Perm (child :: list)) : after.Forest where
  mem_children_iff := by
    intro holder member
    rw [placed.children, placed.parent?]
    by_cases here : holder = parent
    · subst here
      rw [if_pos rfl, (permuted _).mem_iff, List.mem_cons, List.mem_filter,
        forest.mem_children_iff]
      by_cases same : member = child <;> simp [same]
    · rw [if_neg here, List.mem_filter, forest.mem_children_iff]
      by_cases same : member = child
      · simp [same, Ne.symm here]
      · simp [same]
  nodup_children holder := by
    rw [placed.children]
    split
    next =>
      refine (permuted _).nodup_iff.mpr (List.nodup_cons.mpr ⟨?_, ?_⟩)
      · simp
      · exact (forest.nodup_children parent).filter _
    next => exact (forest.nodup_children holder).filter _
  rooted := by
    obtain ⟨different, apart⟩ := forest.mayPlace_iff.mp may
    have others : ∀ other, other ≠ child → after.parent? other = tree.parent? other :=
      fun other different => by rw [placed.parent?, if_neg different]
    have above : after.Rooted parent :=
      (forest.rooted parent).of_not_below different apart others
    have link : after.parent? child = some parent := by rw [placed.parent?, if_pos rfl]
    intro id
    induction forest.rooted id with
    | @top id parentless =>
        by_cases same : id = child
        · exact .under (same ▸ link) above
        · exact .top (by rwa [others id same])
    | @under id holder step _ ih =>
        by_cases same : id = child
        · exact .under (same ▸ link) above
        · exact .under (by rwa [others id same]) ih

/-- What becomes of a tree when a node is to be placed below a parent: nothing if
that is refused, and else the node is placed somewhere in the list. -/
inductive Attached (before : Tree) (parent child : NodeId) : Tree → Prop where
  | refused (refused : before.mayPlace parent child = false) : Attached before parent child before
  | placed {after : Tree} {arrange : List NodeId → List NodeId}
      (may : before.mayPlace parent child = true)
      (permuted : ∀ list, (arrange list).Perm (child :: list))
      (placed : Placed before after parent child arrange) : Attached before parent child after

theorem Attached.forest (attached : Attached tree parent child after) (forest : tree.Forest) :
    after.Forest := by
  cases attached with
  | refused => exact forest
  | placed may permuted placed => exact placed.forest forest may permuted

theorem Attached.sameContent (attached : Attached tree parent child after) :
    SameContent tree after := by
  cases attached with
  | refused => exact SameContent.refl tree
  | placed _ _ placed => exact placed.toSameContent

/-- Placing within the store has a result. -/
theorem Forest.place? (forest : tree.Forest) (parentInside : parent < tree.size)
    (childInside : child < tree.size) (permuted : ∀ list, (arrange list).Perm (child :: list)) :
    ∃ after, tree.place? parent child arrange = some after ∧
      Attached tree parent child after := by
  cases may : tree.mayPlace parent child with
  | false => exact ⟨tree, place?_of_refused may, .refused may⟩
  | true =>
      obtain ⟨after, done, placed⟩ := forest.place?_spec parentInside childInside may arrange
      exact ⟨after, done, .placed may permuted placed⟩

end Place

/-! ## The edits that place -/

theorem perm_append_child (child : NodeId) (list : List NodeId) :
    (list ++ [child]).Perm (child :: list) :=
  List.perm_append_comm

theorem perm_listedBefore (reference child : NodeId) (list : List NodeId) :
    (listedBefore reference child list).Perm (child :: list) := by
  unfold listedBefore
  cases found : list.idxOf? reference with
  | none => exact List.perm_append_comm
  | some place =>
      obtain ⟨inside, -⟩ := List.idxOf?_eq_some_iff.mp found
      exact List.perm_insertIdx child list (Nat.le_of_lt inside)

theorem listedBefore_head (first child : NodeId) (rest : List NodeId) :
    listedBefore first child (first :: rest) = child :: first :: rest := by
  simp [listedBefore, List.idxOf?_cons]

theorem listedBefore_of_not_mem {reference member : NodeId} {list : List NodeId}
    (absent : reference ∉ list) : listedBefore reference member list = list ++ [member] := by
  simp only [listedBefore, List.idxOf?_eq_none_iff.mpr absent]

section Edits

variable {tree : Tree} {parent child : NodeId} (forest : tree.Forest)
  (parentInside : parent < tree.size) (childInside : child < tree.size)
include forest parentInside childInside

theorem Forest.append? :
    ∃ after, tree.append? parent child = some after ∧ Attached tree parent child after :=
  forest.place? parentInside childInside (perm_append_child child)

theorem Forest.insertBefore? (reference : NodeId) :
    ∃ after, tree.insertBefore? parent child reference = some after ∧
      Attached tree parent child after :=
  forest.place? parentInside childInside (perm_listedBefore reference child)

theorem Forest.prepend? :
    ∃ after, tree.prepend? parent child = some after ∧ Attached tree parent child after := by
  unfold Tree.prepend?
  split
  next first _ => exact forest.insertBefore? parentInside childInside first
  next => exact forest.append? parentInside childInside

/-- What is put before the first child is arranged in front of the other children. If it is
that child itself, the reference has left the list together with it, and it comes last. -/
theorem Forest.prepend?_placed (may : tree.mayPlace parent child = true) :
    ∃ after arrange, tree.prepend? parent child = some after ∧
      Placed tree after parent child arrange ∧ (∀ list, (arrange list).Perm (child :: list)) ∧
      arrange ((tree.children parent).filter (· != child)) =
        if tree.firstChild? parent = some child
        then (tree.children parent).filter (· != child) ++ [child]
        else child :: (tree.children parent).filter (· != child) := by
  unfold Tree.prepend?
  split
  next first isFirst =>
    obtain ⟨after, done, placed⟩ :=
      forest.place?_spec parentInside childInside may (listedBefore first child)
    refine ⟨after, _, done, placed, perm_listedBefore first child, ?_⟩
    rw [isFirst]
    by_cases same : first = child
    · rw [if_pos (congrArg some same), same]
      exact listedBefore_of_not_mem (by simp)
    · obtain ⟨rest, listed⟩ := List.head?_eq_some_iff.mp isFirst
      rw [if_neg (by simpa using same), listed, List.filter_cons_of_pos (by simpa using same)]
      exact listedBefore_head first child _
  next childless =>
    obtain ⟨after, done, placed⟩ :=
      forest.place?_spec parentInside childInside may (· ++ [child])
    refine ⟨after, _, done, placed, perm_append_child child, ?_⟩
    rw [childless, if_neg (by simp), List.head?_eq_none_iff.mp childless]
    rfl

theorem Forest.attached_append : Attached tree parent child (tree.append parent child) := by
  obtain ⟨after, done, attached⟩ := forest.append? parentInside childInside
  rwa [Tree.append, done]

theorem Forest.attached_prepend : Attached tree parent child (tree.prepend parent child) := by
  obtain ⟨after, done, attached⟩ := forest.prepend? parentInside childInside
  rwa [Tree.prepend, done]

end Edits

/-! ## Releasing and moving all children -/

/-- A tree in which all children of a node have been detached. -/
structure Released (before after : Tree) (id : NodeId) : Prop extends SameContent before after where
  parent? : ∀ other, after.parent? other =
    if other ∈ before.children id then none else before.parent? other
  children : ∀ other, after.children other = if other = id then [] else before.children other

/-- Orphaning nodes of the store one after another. -/
theorem foldlM_orphan (nodes : List NodeId) (tree : Tree)
    (inside : ∀ node ∈ nodes, node < tree.size) :
    ∃ after, nodes.foldlM
        (fun tree node => tree.modify? node ({ · with parent? := none })) tree = some after ∧
      SameContent tree after ∧
      (∀ other, after.parent? other = if other ∈ nodes then none else tree.parent? other) ∧
      (∀ other, after.children other = tree.children other) := by
  induction nodes generalizing tree with
  | nil => exact ⟨tree, rfl, SameContent.refl tree, by simp, fun _ => rfl⟩
  | cons first rest ih =>
      have step := SameContent.withParent tree first none
      obtain ⟨after, done, content, parents, lists⟩ :=
        ih (tree.modify first (Node.withParent none)) fun node member => by
          rw [step.size]
          exact inside node (List.mem_cons_of_mem _ member)
      refine ⟨after, ?_, step.trans content, ?_, ?_⟩
      · rw [List.foldlM_cons, modify?_eq_some _ (inside first List.mem_cons_self)]
        exact done
      · intro other
        rw [parents, parent?_withParent none (inside first List.mem_cons_self)]
        by_cases later : other ∈ rest <;> by_cases same : other = first <;> simp [later, same]
      · intro other
        rw [lists, children_withParent]

section Release

variable {tree after : Tree} {id : NodeId}

/-- Releasing the children of a node of the store has a result. -/
theorem Forest.releaseChildren?_spec (forest : tree.Forest) (inside : id < tree.size) :
    ∃ after, tree.releaseChildren? id = some after ∧ Released tree after id := by
  have step := SameContent.withChildren tree id fun _ => []
  obtain ⟨after, done, content, parents, lists⟩ :=
    foldlM_orphan (tree.children id) (tree.modify id (Node.withChildren fun _ => []))
      fun node member => by
        rw [step.size]
        exact forest.child_lt member
  refine ⟨after, ?_, step.trans content, ?_, ?_⟩
  · simp only [releaseChildren?, modify?_eq_some _ inside, Option.bind_eq_bind, Option.bind_some]
    exact done
  · intro other
    rw [parents, parent?_withChildren]
  · intro other
    rw [lists, children_withChildren _ inside]

/-- Releasing the children of the head of a document. -/
theorem Forest.released_head {head : NodeId} (forest : tree.Forest)
    (found : tree.head? = some head) : Released tree (tree.releaseChildren head) head := by
  obtain ⟨_, -, link⟩ := forest.exists_html_of_head? found
  obtain ⟨after, done, spec⟩ := forest.releaseChildren?_spec (lt_size_of_parent? link)
  rwa [releaseChildren, done]

/-- Releasing the children of a node leaves a forest. -/
theorem Released.forest (released : Released tree after id) (forest : tree.Forest) :
    after.Forest where
  mem_children_iff := by
    intro parent child
    rw [released.children, released.parent?]
    by_cases here : parent = id
    · subst here
      simp only [if_true, List.not_mem_nil, false_iff]
      split
      next => simp
      next member => rwa [← forest.mem_children_iff]
    · rw [if_neg here, forest.mem_children_iff]
      split
      next member =>
        rw [forest.mem_children_iff.mp member]
        simp [Ne.symm here]
      next => exact Iff.rfl
  nodup_children other := by
    rw [released.children]
    split
    next => exact List.nodup_nil
    next => exact forest.nodup_children other
  rooted other := by
    refine (forest.rooted other).mono fun child parent link => ?_
    rw [released.parent?] at link
    split at link
    next => exact absurd link (by simp)
    next => exact link

/-- Appending nodes of the store one after another. -/
theorem Forest.foldlM_append? (target : NodeId) (nodes : List NodeId) {tree : Tree}
    (forest : tree.Forest) (targetInside : nodes ≠ [] → target < tree.size)
    (inside : ∀ node ∈ nodes, node < tree.size) :
    ∃ after, nodes.foldlM (fun tree node => tree.append? target node) tree = some after ∧
      SameContent tree after ∧ after.Forest := by
  induction nodes generalizing tree with
  | nil => exact ⟨tree, rfl, SameContent.refl tree, forest⟩
  | cons first rest ih =>
      obtain ⟨next, appended, attached⟩ :=
        forest.append? (targetInside (by simp)) (inside first List.mem_cons_self)
      have content := attached.sameContent
      obtain ⟨after, done, later, afterForest⟩ := ih (attached.forest forest)
        (fun _ => by rw [content.size]; exact targetInside (by simp))
        (fun node member => by
          rw [content.size]
          exact inside node (List.mem_cons_of_mem _ member))
      refine ⟨after, ?_, content.trans later, afterForest⟩
      rw [List.foldlM_cons, appended]
      exact done

/-- Moving the children of one node of the store to another has a result. -/
theorem Forest.moveChildren? (forest : tree.Forest) {target : NodeId} (inside : id < tree.size)
    (targetInside : target < tree.size) :
    ∃ after, tree.moveChildren? id target = some after ∧ SameContent tree after ∧
      after.Forest := by
  obtain ⟨released, done, spec⟩ := forest.releaseChildren?_spec inside
  obtain ⟨after, moved, content, afterForest⟩ :=
    (spec.forest forest).foldlM_append? target (tree.children id)
      (fun _ => by rwa [spec.size])
      (fun node member => by rw [spec.size]; exact forest.child_lt member)
  refine ⟨after, ?_, spec.toSameContent.trans content, afterForest⟩
  simp only [Tree.moveChildren?, done, Option.bind_eq_bind, Option.bind_some]
  exact moved

end Release

end Tree

end FirstPaint
