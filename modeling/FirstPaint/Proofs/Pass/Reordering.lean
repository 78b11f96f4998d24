import FirstPaint.Proofs.Document.Transfer
import FirstPaint.Proofs.Pass.Grouping

/-!
# What the order of the head leaves alone

Ordering the head detaches the children of the head and appends some of them again.
It appends nothing else, since the canonical order consists of former children. None of
these is refused, since the head does not lie below itself (`orderHead_gathered`). So
only the list of children of the head changes, and links upwards change only between
a former child and nothing (`Tree.HeadOnly`). The html element and the head are found
where they were.
-/

set_option autoImplicit false

namespace FirstPaint

namespace Tree

/-- Two trees differ at most in the children of one node: the second has some of those
of the first, in any order, and the others have no parent. -/
structure HeadOnly (before after : Tree) (head : NodeId) : Prop
    extends SameContent before after where
  forest : after.Forest
  children : ∀ {id}, id ≠ head → after.children id = before.children id
  parent? : ∀ {id}, id ∉ before.children head → after.parent? id = before.parent? id
  loose : ∀ {id}, id ∈ before.children head →
    after.parent? id = none ∨ after.parent? id = some head

namespace HeadOnly

variable {before middle after : Tree} {head child : NodeId}

theorem refl (forest : before.Forest) (head : NodeId) : HeadOnly before before head where
  toSameContent := .refl before
  forest := forest
  children _ := rfl
  parent? _ := rfl
  loose member := .inr (forest.mem_children_iff.mp member)

/-- The head has no new children. -/
theorem subset (only : HeadOnly before after head) (forest : before.Forest)
    (member : child ∈ after.children head) : child ∈ before.children head := by
  by_contra apart
  rw [only.forest.mem_children_iff, only.parent? apart, ← forest.mem_children_iff] at member
  exact apart member

theorem trans (forest : before.Forest) (earlier : HeadOnly before middle head)
    (later : HeadOnly middle after head) : HeadOnly before after head where
  toSameContent := earlier.toSameContent.trans later.toSameContent
  forest := later.forest
  children different := (later.children different).trans (earlier.children different)
  parent? apart :=
    (later.parent? fun member => apart (earlier.subset forest member)).trans
      (earlier.parent? apart)
  loose {id} member := by
    by_cases stays : id ∈ middle.children head
    · exact later.loose stays
    · rw [later.parent? stays]
      exact earlier.loose member

/-- Some of the children come back to the head from which all of them were taken. -/
theorem of_gathered {order : List NodeId} (released : Released before middle head)
    (gathered : Gathered middle after head order)
    (members : ∀ node ∈ order, node ∈ before.children head) : HeadOnly before after head where
  toSameContent := released.toSameContent.trans gathered.toSameContent
  forest := gathered.forest
  children different := by
    rw [gathered.children, if_neg different, List.append_nil, released.children, if_neg different]
  parent? apart := by
    rw [gathered.parent?, if_neg fun listed => apart (members _ listed), released.parent?,
      if_neg apart]
  loose member := by
    rw [gathered.parent?, released.parent?, if_pos member]
    split
    next => exact .inr rfl
    next => exact .inl rfl

section Document

variable {html : NodeId} (only : HeadOnly before after head) (forest : before.Forest)
  (found : before.html? = some html) (headFound : before.head? = some head)
include only forest found headFound

theorem html? : after.html? = some html := by
  have htmlLink := forest.parent?_of_html? found
  have headLink := forest.parent?_of_head? found headFound
  have different : root ≠ head := by
    rintro rfl
    exact forest.not_below_self ((below_of_parent? headLink).trans (below_of_parent? htmlLink))
  rw [← found]
  exact html?_congr (only.children different) fun child _ => tag?_congr (only.kind? child)

theorem head? : after.head? = some head := by
  have headLink := forest.parent?_of_head? found headFound
  rw [← headFound]
  exact htmlChild?_congr found (only.html? forest found headFound)
    (only.children (forest.ne_of_parent? headLink)) (fun child _ => tag?_congr (only.kind? child))
    "head"

end Document

end HeadOnly

end Tree

/-! ## The canonical order lists former children -/

theorem mem_insertByName {nameOf : NodeId → String} {script id : NodeId} {list : List NodeId}
    (member : id ∈ insertByName nameOf script list) : id = script ∨ id ∈ list := by
  induction list with
  | nil => exact .inl (by simpa [insertByName] using member)
  | cons first rest ih =>
      unfold insertByName at member
      split at member
      next => exact List.mem_cons.mp member
      next =>
        split at member
        next =>
          rcases List.mem_cons.mp member with here | later
          · exact .inl here
          · exact .inr (List.mem_cons_of_mem first later)
        next =>
          rcases List.mem_cons.mp member with here | later
          · exact .inr (here ▸ List.mem_cons_self)
          · exact (ih later).imp_right (List.mem_cons_of_mem first)

theorem mem_foldl_insertByName {nameOf : NodeId → String} {id : NodeId} (nodes : List NodeId)
    {kept : List NodeId}
    (member : id ∈ nodes.foldl (fun kept script => insertByName nameOf script kept) kept) :
    id ∈ nodes ∨ id ∈ kept := by
  induction nodes generalizing kept with
  | nil => exact .inr member
  | cons node rest ih =>
      rcases ih member with later | listed
      · exact .inl (List.mem_cons_of_mem node later)
      · rcases mem_insertByName listed with rfl | before
        · exact .inl List.mem_cons_self
        · exact .inr before

theorem HeadGroup.mem_keep {group : HeadGroup} {tree : Tree} {nodes : List NodeId} {id : NodeId}
    (member : id ∈ group.keep tree nodes) : id ∈ nodes := by
  unfold HeadGroup.keep at member
  split at member
  next => exact List.mem_of_getLast? (Option.mem_toList.mp member)
  next =>
    split at member
    next =>
      rcases mem_foldl_insertByName nodes member with listed | none
      · exact listed
      · exact absurd none (by simp)
    next => exact member

theorem mem_canonicalOrder {registry : ScriptRegistry} {tree : Tree} {nodes : List NodeId}
    {id : NodeId} (member : id ∈ canonicalOrder registry tree nodes) : id ∈ nodes := by
  obtain ⟨group, -, kept⟩ := List.mem_flatMap.mp member
  obtain ⟨placed, listed, rfl⟩ := List.mem_map.mp (HeadGroup.mem_keep kept)
  exact (placements_sublist registry tree false nodes).subset
    (List.mem_map_of_mem (List.mem_filter.mp listed).1)

/-! ## The head is filled again -/

/-- The children of the head in canonical order, as they are swept once they have been
released. -/
def headOrder (registry : ScriptRegistry) (tree : Tree) (head : NodeId) : List NodeId :=
  canonicalOrder registry (tree.releaseChildren head) (tree.children head)

section Ordering

variable {tree : Tree} {head : NodeId} (registry : ScriptRegistry) (forest : tree.Forest)
  (headFound : tree.head? = some head)
include forest headFound

/-- The head gets the canonical order of the children that were taken from it. -/
theorem orderHead_gathered : (tree.releaseChildren head).Gathered (orderHead registry tree) head
    (headOrder registry tree head) := by
  obtain ⟨html, -, link⟩ := forest.exists_html_of_head? headFound
  obtain ⟨after, done, gathered⟩ := (forest.released_head headFound).append_gathered forest
    (Tree.lt_size_of_parent? link) (fun _ => mem_canonicalOrder)
    (nodup_canonicalOrder (forest.nodup_children head))
  have back : ∀ node ∈ headOrder registry tree head, tree.mayPlace head node = true :=
    fun node member => forest.mayPlace_of_apart forest.not_below_self (mem_canonicalOrder member)
  have ordered : orderHead registry tree = after := by
    simp only [orderHead, headFound]
    exact Tree.foldl_append_of_foldlM done
  rwa [ordered, ← List.filter_eq_self.mpr back]

/-- Ordering the head changes nothing but the children of the head. -/
theorem orderHead_headOnly : tree.HeadOnly (orderHead registry tree) head :=
  .of_gathered (forest.released_head headFound) (orderHead_gathered registry forest headFound)
    fun _ => mem_canonicalOrder

end Ordering

end FirstPaint
