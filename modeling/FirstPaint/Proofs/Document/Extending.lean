import FirstPaint.Proofs.Document.Adding
import Mathlib.Algebra.BigOperators.Group.List.Basic
import Mathlib.Algebra.GroupWithZero.Nat

/-!
# New nodes among the old ones

A tree is extended when new nodes have come into it and the nodes that were there are
what and where they were, in their old order (`Extended`). Among the descendants of a
node the old ones are then listed as before (`Extended.filter_descendants`), and what is
found or summed up over them differs by what the new ones contribute.

Weights are summed up over the nodes below another one (`sumBelow`). Every node is listed
once, so a sum changes by the change of one weight exactly if its node is below.
-/

set_option autoImplicit false

namespace FirstPaint

namespace Tree

/-! ## Sums -/

/-- The sum of the weights of the nodes below a node. -/
def sumBelow (tree : Tree) (weight : NodeId → Nat) (top : NodeId) : Nat :=
  ((tree.descendants top).map weight).sum

/-- One weight in a list without repetition. -/
theorem sum_map_single {list : List NodeId} (distinct : list.Nodup) (id : NodeId) (weight : Nat) :
    (list.map fun other => if other = id then weight else 0).sum =
      if id ∈ list then weight else 0 := by
  rw [List.sum_map_eq_nsmul_single id _ fun other different _ => if_neg different,
    distinct.count, if_pos rfl]
  split
  next => exact one_nsmul weight
  next => exact zero_nsmul weight

theorem sum_map_filter_add (list : List NodeId) (weight : NodeId → Nat) (inside : NodeId → Bool) :
    ((list.filter inside).map weight).sum + ((list.filter (!inside ·)).map weight).sum =
      (list.map weight).sum := by
  rw [← List.sum_append, ← List.map_append]
  exact ((List.filter_append_perm inside list).map weight).sum_eq

/-- A sum grows with one of its weights if the node of that weight is below. -/
theorem Forest.sumBelow_add_single {tree : Tree} (forest : tree.Forest)
    {before after : NodeId → Nat} {id top : NodeId} {more : Nat}
    (grown : ∀ other ∈ tree.descendants top,
      after other = before other + if other = id then more else 0) :
    tree.sumBelow after top =
      tree.sumBelow before top + if id ∈ tree.descendants top then more else 0 := by
  rw [sumBelow, List.map_congr_left grown, List.sum_map_add,
    sum_map_single (forest.nodup_descendants top)]
  rfl

theorem sumBelow_congr {before after : Tree} {weight other : NodeId → Nat} {top : NodeId}
    (listed : after.descendants top = before.descendants top)
    (same : ∀ id ∈ before.descendants top, weight id = other id) :
    after.sumBelow weight top = before.sumBelow other top := by
  rw [sumBelow, sumBelow, listed, List.map_congr_left same]

/-! ## Extended trees -/

/-- A tree into which new nodes have come. -/
structure Extended (before after : Tree) : Prop where
  forest : after.Forest
  size_le : before.size ≤ after.size
  kind? : ∀ {id}, id < before.size → after.kind? id = before.kind? id
  parent? : ∀ {id}, id < before.size → after.parent? id = before.parent? id
  children : ∀ {id}, id < before.size →
    (after.children id).filter (· < before.size) = before.children id

theorem flatMap_filter {list : List NodeId} {below lower : NodeId → List NodeId}
    {inside : NodeId → Bool}
    (kept : ∀ id ∈ list, inside id = true → (below id).filter inside = lower id)
    (dropped : ∀ id ∈ list, inside id = false → (below id).filter inside = []) :
    (list.flatMap below).filter inside = (list.filter inside).flatMap lower := by
  induction list with
  | nil => rfl
  | cons first rest ih =>
      rw [List.forall_mem_cons] at kept dropped
      rw [List.flatMap_cons, List.filter_append, ih kept.2 dropped.2]
      cases isInside : inside first with
      | true => rw [List.filter_cons_of_pos isInside, List.flatMap_cons, kept.1 isInside]
      | false =>
          rw [List.filter_cons_of_neg (by simp [isInside]), dropped.1 isInside, List.nil_append]

namespace Extended

variable {before after : Tree} (extended : Extended before after)
include extended

/-- An extension is a growth that may give children to all nodes and writes to none. -/
theorem grows : Grows ⟨fun _ => False, fun _ => True⟩ (fun _ => True) before after where
  forest := extended.forest
  size_le := extended.size_le
  parent? := extended.parent?
  children _ apart := absurd trivial apart
  kind? {_ kind} found :=
    ⟨kind, (extended.kind? (lt_size_of_kind? found)).trans found, .same kind⟩
  element? inside _ := element?_congr (extended.kind? inside)
  fresh _ _ := trivial

/-- Below a new node all nodes are new. -/
theorem filter_descendants_new (forest : before.Forest) {top : NodeId}
    (isNew : before.size ≤ top) : (after.descendants top).filter (· < before.size) = [] := by
  refine List.filter_eq_nil_iff.mpr fun id member => ?_
  rw [decide_eq_true_iff]
  intro inside
  have below := extended.forest.mem_descendants_iff.mp member
  rw [extended.grows.below_iff forest inside] at below
  exact Nat.not_lt_of_le isNew (forest.ancestor_lt below)

/-- Of the descendants of a node the old ones are listed as before. -/
theorem filter_descendants (forest : before.Forest) {top : NodeId} (inside : top < before.size) :
    (after.descendants top).filter (· < before.size) = before.descendants top := by
  revert inside
  refine forest.downward (motive := fun top => top < before.size →
    (after.descendants top).filter (· < before.size) = before.descendants top) ?_ top
  intro top ih inside
  rw [extended.forest.descendants_eq, forest.descendants_eq, ← extended.children inside]
  refine flatMap_filter (fun child member old => ?_) fun child member isNew => ?_
  · have listed : child ∈ before.children top := by
      rw [← extended.children inside]
      exact List.mem_filter.mpr ⟨member, old⟩
    rw [List.filter_cons_of_pos (p := (decide <| · < before.size)) old,
      ih child listed (of_decide_eq_true old)]
  · have outside := Nat.le_of_not_lt (of_decide_eq_false isNew)
    rw [List.filter_cons_of_neg (by simp [isNew]), extended.filter_descendants_new forest outside]

/-- What no new node satisfies is found where it was. -/
theorem find?_descendants (forest : before.Forest) {top : NodeId} (inside : top < before.size)
    {condition : NodeId → Bool} (old : ∀ id, condition id = true → id < before.size) :
    (after.descendants top).find? condition = (before.descendants top).find? condition := by
  rw [← extended.filter_descendants forest inside, List.find?_filter]
  refine List.find?_congr fun id _ => ?_
  cases holds : condition id with
  | true => simp [old id holds]
  | false => simp

/-- A sum over the descendants of a node grows by the weights of the new ones. -/
theorem sumBelow (forest : before.Forest) {top : NodeId} (inside : top < before.size)
    {weight other : NodeId → Nat} (same : ∀ id < before.size, weight id = other id)
    {id : NodeId} (isNew : before.size ≤ id)
    (only : ∀ other, before.size ≤ other → other ≠ id → weight other = 0) :
    after.sumBelow weight top =
      before.sumBelow other top + if id ∈ after.descendants top then weight id else 0 := by
  have old : ((before.descendants top).map weight).sum =
      ((before.descendants top).map other).sum := by
    refine congrArg List.sum (List.map_congr_left fun id member => same id ?_)
    obtain ⟨_, link, -⟩ := Relation.TransGen.head'_iff.mp (forest.mem_descendants_iff.mp member)
    exact lt_size_of_parent? link
  have new : (((after.descendants top).filter fun id => !decide (id < before.size)).map
      weight).sum = if id ∈ after.descendants top then weight id else 0 := by
    rw [List.map_congr_left (g := fun other => if other = id then weight id else 0)
      fun other member => ?_, sum_map_single ((extended.forest.nodup_descendants top).filter _)]
    · simp [isNew]
    · obtain ⟨-, outside⟩ := List.mem_filter.mp member
      split
      next here => rw [here]
      next elsewhere => exact only other (by simpa using outside) elsewhere
  rw [Tree.sumBelow, Tree.sumBelow, ← sum_map_filter_add _ weight (· < before.size),
    extended.filter_descendants forest inside, old, new]

end Extended

/-! ## Steps of an extension -/

namespace Extended

variable {before middle after : Tree}

theorem refl (forest : before.Forest) : Extended before before where
  forest := forest
  size_le := Nat.le_refl _
  kind? _ := rfl
  parent? _ := rfl
  children _ := List.filter_eq_self.mpr fun _ member => decide_eq_true (forest.child_lt member)

theorem create (extended : Extended before middle) (kind : NodeKind) :
    Extended before (middle.create kind).2 where
  forest := extended.forest.congr (SameLinks.create middle kind)
  size_le := Nat.le_trans extended.size_le (Nat.le_of_lt (lt_size_create kind))
  kind? inside := by
    rw [kind?_create, if_neg (Nat.ne_of_lt (Nat.lt_of_lt_of_le inside extended.size_le)),
      extended.kind? inside]
  parent? inside := by rw [parent?_create, extended.parent? inside]
  children inside := by rw [children_create, extended.children inside]

/-- A new node comes to a place among its siblings that does not depend on the order of the
others. -/
theorem place {parent child : NodeId} {arrange : List NodeId → List NodeId}
    (extended : Extended before middle) (isNew : before.size ≤ child)
    (placed : Placed middle after parent child arrange) (forest : after.Forest)
    (ordered : ∀ list, (arrange list).filter (· < before.size) = list.filter (· < before.size)) :
    Extended before after where
  forest := forest
  size_le := by rw [placed.size]; exact extended.size_le
  kind? inside := by rw [placed.kind?, extended.kind? inside]
  parent? inside := by
    rw [placed.parent?, if_neg (Nat.ne_of_lt (Nat.lt_of_lt_of_le inside isNew)),
      extended.parent? inside]
  children {id} inside := by
    have kept : ∀ list : List NodeId,
        (list.filter (· != child)).filter (· < before.size) = list.filter (· < before.size) := by
      intro list
      rw [List.filter_filter]
      refine List.filter_congr fun other _ => ?_
      by_cases old : other < before.size
      · have different : other ≠ child := Nat.ne_of_lt (Nat.lt_of_lt_of_le old isNew)
        simp [old, different]
      · simp [old]
    rw [placed.children, ← extended.children inside]
    split
    next same => rw [ordered, kept, same]
    next => exact kept _

theorem append {parent child : NodeId} (extended : Extended before middle)
    (isNew : before.size ≤ child) (placed : Placed middle after parent child (· ++ [child]))
    (forest : after.Forest) : Extended before after := by
  refine extended.place isNew placed forest fun list => ?_
  rw [List.filter_append, List.filter_singleton, decide_eq_false (Nat.not_lt_of_le isNew)]
  exact List.append_nil _

theorem putFirst {parent child : NodeId} (extended : Extended before middle)
    (isNew : before.size ≤ child) (put : PutFirst middle after parent child) :
    Extended before after where
  forest := put.forest
  size_le := by rw [put.size]; exact extended.size_le
  kind? inside := by rw [put.kind?, extended.kind? inside]
  parent? inside := by
    rw [put.parent?, if_neg (Nat.ne_of_lt (Nat.lt_of_lt_of_le inside isNew)),
      extended.parent? inside]
  children {id} inside := by
    rw [put.children, ← extended.children inside]
    split
    next same =>
      rw [List.filter_cons_of_neg (by simpa using isNew), same]
    next => rfl

end Extended

/-- A new last child extends the tree. -/
theorem Inserted.extended {before after : Tree} {parent : NodeId} {kind : NodeKind}
    (inserted : Inserted before after parent kind) (forest : before.Forest) :
    Extended before after where
  forest := inserted.forest
  size_le := by rw [inserted.size]; exact Nat.le_succ _
  kind? := inserted.kind?_old
  parent? inside := by rw [inserted.parent?, if_neg (Nat.ne_of_lt inside)]
  children {id} inside := by
    have old : ∀ id, (before.children id).filter (· < before.size) = before.children id :=
      fun id => List.filter_eq_self.mpr fun _ member => decide_eq_true (forest.child_lt member)
    rw [inserted.children]
    split
    next same =>
      rw [List.filter_append, old, same, List.filter_singleton, decide_eq_false (Nat.lt_irrefl _)]
      exact List.append_nil _
    next => exact old id

/-! ## Parts of the document -/

section Parts

variable {before after : Tree}

/-- The parts of a document depend on the children of the document and of its html element
and on the tags of these. -/
theorem htmlChild?_eq (rootSame : after.children root = before.children root)
    (htmlSame : ∀ {html}, before.html? = some html → after.children html = before.children html)
    (tags : ∀ {parent child}, child ∈ before.children parent →
      after.tag? child = before.tag? child) :
    after.html? = before.html? ∧ ∀ tag, after.htmlChild? tag = before.htmlChild? tag := by
  have html : after.html? = before.html? := html?_congr rootSame fun _ member => tags member
  refine ⟨html, fun tag => ?_⟩
  cases found : before.html? with
  | none =>
      simp only [htmlChild?, html, found]
      rfl
  | some top =>
      exact htmlChild?_congr found (html.trans found) (htmlSame found) (fun _ member => tags member)
        tag

theorem body?_congr (parts : ∀ tag, after.htmlChild? tag = before.htmlChild? tag) :
    after.body? = before.body? := by
  rw [body?, body?, parts, parts]

/-- The body is a child of the html element, and its tag is one of two. -/
theorem body?_eq_some {body : NodeId} (found : before.body? = some body) :
    ∃ html, before.html? = some html ∧ body ∈ before.children html ∧
      (before.isTagged body "body" = true ∨ before.isTagged body "frameset" = true) := by
  have child : ∀ {tag}, before.htmlChild? tag = some body → ∃ html,
      before.html? = some html ∧ body ∈ before.children html ∧
        before.isTagged body tag = true := by
    intro tag part
    obtain ⟨html, htmlFound, first⟩ := Option.bind_eq_some_iff.mp part
    exact ⟨html, htmlFound, List.mem_of_find?_eq_some first, by simpa using List.find?_some first⟩
  rw [body?] at found
  cases isBody : before.htmlChild? "body" with
  | some other =>
      rw [isBody] at found
      cases found
      obtain ⟨html, htmlFound, member, tagged⟩ := child isBody
      exact ⟨html, htmlFound, member, .inl tagged⟩
  | none =>
      rw [isBody] at found
      have isFrameset : before.htmlChild? "frameset" = some body := found
      obtain ⟨html, htmlFound, member, tagged⟩ := child isFrameset
      exact ⟨html, htmlFound, member, .inr tagged⟩

theorem body?_ne_head {head : NodeId} (headFound : before.head? = some head) :
    before.body? ≠ some head := by
  intro found
  have isHead := isTagged_of_head? headFound
  obtain ⟨_, -, -, tagged⟩ := body?_eq_some found
  rw [isTagged_eq_false_of_isTagged isHead (by with_unfolding_all decide),
    isTagged_eq_false_of_isTagged isHead (by with_unfolding_all decide)] at tagged
  exact absurd tagged (by simp)

end Parts

end Tree

end FirstPaint
