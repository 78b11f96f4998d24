import FirstPaint.Markup.Fragment
import FirstPaint.Proofs.Document.Reading
import Mathlib.Data.List.Basic
import Mathlib.Logic.Relation

/-!
# Trees whose links form a forest

A tree keeps every link twice, in the child and in the list of its parent. In a
forest the two agree, no list names a child twice, and every way upwards ends.

The walks through a tree are bounded by the size of the store. In a forest the
nodes on a way upwards are distinct members of the store, so the bound is never
reached: ancestors and descendants satisfy the equations of unbounded walks
(`ancestors_of_parent?`, `descendants_eq`), and a greater bound changes nothing.
Each walk is also compared with the iteration that it stands for, which holds a
current node or a stack of pending nodes and stops when nothing is left
(`UpwardWalk`, `DownwardWalk`).
-/

set_option autoImplicit false

namespace FirstPaint

namespace Tree

/-! ## Ways upwards -/

/-- The way upwards from a node ends at a node without a parent. -/
inductive Rooted (tree : Tree) : NodeId → Prop where
  | top {id : NodeId} (parentless : tree.parent? id = none) : Rooted tree id
  | under {id parent : NodeId} (link : tree.parent? id = some parent)
      (above : Rooted tree parent) : Rooted tree id

/-- A node lies at any depth below another one. -/
def Below (tree : Tree) : NodeId → NodeId → Prop :=
  Relation.TransGen fun child parent => tree.parent? child = some parent

/-- The links of a tree form a forest. -/
structure Forest (tree : Tree) : Prop where
  /-- Lists of children and links to parents agree. -/
  mem_children_iff : ∀ {parent child : NodeId},
    child ∈ tree.children parent ↔ tree.parent? child = some parent
  /-- No child is listed twice. -/
  nodup_children : ∀ id, (tree.children id).Nodup
  /-- Every way upwards ends. -/
  rooted : ∀ id, tree.Rooted id

section Ways

variable {tree after : Tree} {id parent ancestor : NodeId}

theorem below_of_parent? (link : tree.parent? id = some parent) : tree.Below id parent :=
  Relation.TransGen.single link

theorem Below.trans {middle : NodeId} (lower : tree.Below id middle)
    (upper : tree.Below middle ancestor) : tree.Below id ancestor :=
  Relation.TransGen.trans lower upper

/-- What lies above a node is its parent or lies above its parent. -/
theorem below_iff_of_parent? (link : tree.parent? id = some parent) :
    tree.Below id ancestor ↔ parent = ancestor ∨ tree.Below parent ancestor := by
  constructor
  · intro below
    rcases Relation.TransGen.head'_iff.mp below with ⟨first, step, rest⟩
    obtain rfl : parent = first := Option.some.inj (link.symm.trans step)
    rcases Relation.reflTransGen_iff_eq_or_transGen.mp rest with same | above
    · exact .inl same.symm
    · exact .inr above
  · rintro (rfl | above)
    · exact below_of_parent? link
    · exact .head link above

theorem not_below_of_parentless (parentless : tree.parent? id = none) :
    ¬ tree.Below id ancestor := by
  intro below
  obtain ⟨first, step, -⟩ := Relation.TransGen.head'_iff.mp below
  rw [parentless] at step
  exact absurd step (by simp)

/-- A node whose way upwards ends does not lie below itself. -/
theorem Rooted.not_below_self (rooted : tree.Rooted id) : ¬ tree.Below id id := by
  induction rooted with
  | top parentless => exact not_below_of_parentless parentless
  | under link _ ih =>
      intro below
      rcases (below_iff_of_parent? link).mp below with rfl | above
      · exact ih below
      · exact ih (above.trans (below_of_parent? link))

/-- The links that stay are the only ones along which ways can lead. -/
theorem Below.mono (kept : ∀ child parent, after.parent? child = some parent →
    tree.parent? child = some parent) (below : after.Below id ancestor) :
    tree.Below id ancestor :=
  Relation.TransGen.mono (fun child parent => kept child parent) _ _ below

/-- Taking links away keeps every way upwards finite. -/
theorem Rooted.mono (kept : ∀ child parent, after.parent? child = some parent →
    tree.parent? child = some parent) (rooted : tree.Rooted id) : after.Rooted id := by
  induction rooted with
  | @top id parentless =>
      cases link : after.parent? id with
      | none => exact .top link
      | some parent => rw [kept id parent link] at parentless; cases parentless
  | @under id parent step _ ih =>
      cases link : after.parent? id with
      | none => exact .top link
      | some other =>
          rw [kept id other link] at step
          cases step
          exact .under link ih

end Ways

namespace Forest

variable {tree : Tree} {id parent child ancestor : NodeId}

theorem congr {after : Tree} (forest : tree.Forest) (same : SameLinks tree after) :
    after.Forest where
  mem_children_iff := by
    intro parent child
    rw [same.children, same.parent?]
    exact forest.mem_children_iff
  nodup_children id := by rw [same.children]; exact forest.nodup_children id
  rooted id := (forest.rooted id).mono fun child parent link => by rwa [same.parent?] at link

theorem parent_lt (forest : tree.Forest) (link : tree.parent? id = some parent) :
    parent < tree.size :=
  lt_size_of_mem_children (forest.mem_children_iff.mpr link)

theorem child_lt (forest : tree.Forest) (member : child ∈ tree.children id) :
    child < tree.size :=
  lt_size_of_parent? (forest.mem_children_iff.mp member)

theorem not_below_self (forest : tree.Forest) : ¬ tree.Below id id :=
  (forest.rooted id).not_below_self

theorem ne_of_parent? (forest : tree.Forest) (link : tree.parent? id = some parent) :
    parent ≠ id := by
  rintro rfl
  exact forest.not_below_self (below_of_parent? link)

/-- Nothing lies below a node that has no children. -/
theorem not_below_of_childless (forest : tree.Forest) (childless : tree.children ancestor = []) :
    ¬ tree.Below id ancestor := by
  intro below
  obtain ⟨last, -, link⟩ := Relation.TransGen.tail'_iff.mp below
  have member := forest.mem_children_iff.mpr link
  rw [childless] at member
  exact List.not_mem_nil member

/-! ## The html element and its head -/

section Document

variable {html head : NodeId} (forest : tree.Forest)
include forest

theorem parent?_of_html? (found : tree.html? = some html) : tree.parent? html = some root := by
  obtain ⟨first, -⟩ := html?_eq_some_iff.mp found
  exact forest.mem_children_iff.mp (List.mem_of_find?_eq_some first)

theorem exists_html_of_head? (found : tree.head? = some head) :
    ∃ html, tree.html? = some html ∧ tree.parent? head = some html := by
  obtain ⟨html, htmlFound, first⟩ := Option.bind_eq_some_iff.mp found
  exact ⟨html, htmlFound, forest.mem_children_iff.mp (List.mem_of_find?_eq_some first)⟩

theorem parent?_of_head? (found : tree.html? = some html) (headFound : tree.head? = some head) :
    tree.parent? head = some html := by
  obtain ⟨other, same, link⟩ := forest.exists_html_of_head? headFound
  rw [found] at same
  cases same
  exact link

end Document

end Forest

/-! ## Ancestors -/

/-- An iteration that yields its current node and goes on with the parent of that
node until there is none. -/
inductive UpwardWalk (tree : Tree) : Option NodeId → List NodeId → Prop where
  | stop : UpwardWalk tree none []
  | step {current : NodeId} {visited : List NodeId}
      (rest : UpwardWalk tree (tree.parent? current) visited) :
      UpwardWalk tree (some current) (current :: visited)

section Ancestors

variable {tree : Tree} {id parent ancestor : NodeId}

theorem below_of_mem_ancestorsUpTo {steps : Nat}
    (member : ancestor ∈ tree.ancestorsUpTo steps id) : tree.Below id ancestor := by
  induction steps generalizing id with
  | zero => simp [ancestorsUpTo] at member
  | succ steps ih =>
      simp only [ancestorsUpTo] at member
      split at member
      next => simp at member
      next parent link =>
        rw [below_iff_of_parent? link]
        rcases List.mem_cons.mp member with rfl | above
        · exact .inl rfl
        · exact .inr (ih above)

/-- A walk that stopped by itself is the same under any greater bound. -/
theorem ancestorsUpTo_of_short {steps : Nat}
    (short : (tree.ancestorsUpTo steps id).length < steps) (more : Nat) :
    tree.ancestorsUpTo (steps + more) id = tree.ancestorsUpTo steps id := by
  induction steps generalizing id with
  | zero => exact absurd short (Nat.not_lt_zero _)
  | succ steps ih =>
      rw [Nat.succ_add_eq_add_succ]
      simp only [ancestorsUpTo] at short ⊢
      cases link : tree.parent? id with
      | none => simp
      | some parent =>
          simp only [link, List.length_cons, Nat.add_lt_add_iff_right] at short ⊢
          exact congrArg (parent :: ·) (ih short)

end Ancestors

namespace Forest

variable {tree : Tree} {id parent child ancestor : NodeId} (forest : tree.Forest)
include forest

/-- What lies above a node is in the store. -/
theorem ancestor_lt (below : tree.Below id ancestor) : ancestor < tree.size := by
  induction below with
  | single link => exact forest.parent_lt link
  | tail _ link _ => exact forest.parent_lt link

/-- A node and the nodes on its way upwards are distinct. -/
theorem nodup_ancestorsUpTo (steps : Nat) (id : NodeId) :
    (id :: tree.ancestorsUpTo steps id).Nodup := by
  refine List.nodup_cons.mpr
    ⟨fun member => forest.not_below_self (below_of_mem_ancestorsUpTo member), ?_⟩
  induction steps generalizing id with
  | zero => exact List.nodup_nil
  | succ steps ih =>
      simp only [ancestorsUpTo]
      split
      next => exact List.nodup_nil
      next parent _ =>
        exact List.nodup_cons.mpr
          ⟨fun member => forest.not_below_self (below_of_mem_ancestorsUpTo member), ih parent⟩

/-- A way upwards has fewer nodes than the store. -/
theorem length_ancestorsUpTo_lt (steps : Nat) (inside : id < tree.size) :
    (tree.ancestorsUpTo steps id).length < tree.size := by
  have members : id :: tree.ancestorsUpTo steps id ⊆ List.range tree.size := by
    intro member listed
    rcases List.mem_cons.mp listed with rfl | above
    · exact List.mem_range.mpr inside
    · exact List.mem_range.mpr (forest.ancestor_lt (below_of_mem_ancestorsUpTo above))
  have bound := (forest.nodup_ancestorsUpTo steps id).length_le_of_subset members
  rwa [List.length_range] at bound

theorem length_ancestors_lt (inside : id < tree.size) :
    (tree.ancestors id).length < tree.size :=
  forest.length_ancestorsUpTo_lt tree.size inside

/-- The ancestors of a node are its parent and the ancestors of its parent. -/
theorem ancestors_of_parent? (link : tree.parent? id = some parent) :
    tree.ancestors id = parent :: tree.ancestors parent := by
  have inside := lt_size_of_parent? link
  obtain ⟨steps, size⟩ := Nat.exists_eq_succ_of_ne_zero (Nat.ne_zero_of_lt inside)
  have unfolded : tree.ancestorsUpTo (steps + 1) id =
      parent :: tree.ancestorsUpTo steps parent := by
    simp only [ancestorsUpTo, link]
  have short : (tree.ancestorsUpTo steps parent).length < steps := by
    have bound := forest.length_ancestorsUpTo_lt (steps + 1) inside
    rw [unfolded, List.length_cons, size] at bound
    exact Nat.lt_of_succ_lt_succ bound
  rw [ancestors, ancestors, size, Nat.succ_eq_add_one, unfolded, ancestorsUpTo_of_short short 1]

omit forest in
theorem ancestors_of_parentless (parentless : tree.parent? id = none) :
    tree.ancestors id = [] := by
  unfold ancestors
  cases tree.size with
  | zero => rfl
  | succ steps => simp only [ancestorsUpTo, parentless]

theorem mem_ancestors_iff : ancestor ∈ tree.ancestors id ↔ tree.Below id ancestor := by
  induction forest.rooted id with
  | top parentless =>
      rw [ancestors_of_parentless parentless]
      simp [not_below_of_parentless parentless]
  | under link _ ih =>
      rw [forest.ancestors_of_parent? link, below_iff_of_parent? link, List.mem_cons, ih]
      exact or_congr_left eq_comm

theorem isDescendant_iff : tree.isDescendant id ancestor = true ↔ tree.Below id ancestor := by
  rw [isDescendant, List.contains_iff_mem, forest.mem_ancestors_iff]

/-- The iteration upwards ends with the ancestors of the node. -/
theorem upwardWalk (id : NodeId) : UpwardWalk tree (tree.parent? id) (tree.ancestors id) := by
  induction forest.rooted id with
  | top parentless =>
      rw [parentless, ancestors_of_parentless parentless]
      exact .stop
  | under link _ ih =>
      rw [link, forest.ancestors_of_parent? link]
      exact .step ih

end Forest

/-! ## Descendants -/

/-- An iteration over a stack of pending nodes: it yields the node on top and
puts the children of that node in its place, until nothing is pending. -/
inductive DownwardWalk (tree : Tree) : List NodeId → List NodeId → Prop where
  | stop : DownwardWalk tree [] []
  | step {current : NodeId} {pending visited : List NodeId}
      (rest : DownwardWalk tree (tree.children current ++ pending) visited) :
      DownwardWalk tree (current :: pending) (current :: visited)

namespace Forest

variable {tree : Tree} {id parent child ancestor : NodeId} (forest : tree.Forest)
include forest

theorem ancestors_of_mem_children (member : child ∈ tree.children id) :
    tree.ancestors child = id :: tree.ancestors id :=
  forest.ancestors_of_parent? (forest.mem_children_iff.mp member)

/-- Each level down takes one node of the room below away. -/
theorem length_ancestors_of_mem_children (member : child ∈ tree.children id) :
    (tree.ancestors child).length = (tree.ancestors id).length + 1 := by
  rw [forest.ancestors_of_mem_children member, List.length_cons]

/-- Induction downwards: a property that passes from the children of each node to
the node holds of every node. The room below a node, which is what its ancestors
leave of the store, shrinks with each level. -/
theorem downward {motive : NodeId → Prop}
    (pass : ∀ id, (∀ child ∈ tree.children id, motive child) → motive id) (id : NodeId) :
    motive id := by
  have key : ∀ room id, tree.size ≤ room + (tree.ancestors id).length → motive id := by
    intro room
    induction room with
    | zero =>
        intro id full
        refine pass id fun child member => ?_
        have bound := forest.length_ancestors_lt (forest.child_lt member)
        rw [forest.length_ancestors_of_mem_children member] at bound
        omega
    | succ room ih =>
        intro id left
        refine pass id fun child member => ih child ?_
        rw [forest.length_ancestors_of_mem_children member]
        omega
  exact key tree.size id (Nat.le_add_right _ _)

/-- Levels beyond the room below a node are empty. -/
theorem descendantsUpTo_of_room {room : Nat} (more : Nat)
    (enough : tree.size ≤ room + (tree.ancestors id).length) :
    tree.descendantsUpTo (room + more) id = tree.descendantsUpTo room id := by
  induction room generalizing id with
  | zero =>
      have childless : tree.children id = [] := by
        refine List.eq_nil_iff_forall_not_mem.mpr fun child member => ?_
        have bound := forest.length_ancestors_lt (forest.child_lt member)
        rw [forest.length_ancestors_of_mem_children member] at bound
        omega
      cases more with
      | zero => rfl
      | succ more => simp [descendantsUpTo, childless]
  | succ room ih =>
      rw [Nat.succ_add]
      simp only [descendantsUpTo]
      refine List.flatMap_congr fun child member => ?_
      rw [ih]
      rw [forest.length_ancestors_of_mem_children member]
      omega

/-- The descendants of a node are its children, each followed by its own. -/
theorem descendants_eq (id : NodeId) :
    tree.descendants id =
      (tree.children id).flatMap fun child => child :: tree.descendants child := by
  by_cases inside : id < tree.size
  · obtain ⟨room, size⟩ := Nat.exists_eq_succ_of_ne_zero (Nat.ne_zero_of_lt inside)
    have unfolded : tree.descendants id =
        (tree.children id).flatMap fun child => child :: tree.descendantsUpTo room child := by
      rw [descendants, size]
      rfl
    rw [unfolded]
    refine List.flatMap_congr fun child member => ?_
    rw [descendants, size, Nat.succ_eq_add_one, forest.descendantsUpTo_of_room 1]
    rw [forest.length_ancestors_of_mem_children member]
    omega
  · have childless := children_of_size_le (Nat.le_of_not_lt inside)
    unfold descendants
    cases tree.size <;> simp [descendantsUpTo, childless]

/-- The descendants of a node are the nodes below it. -/
theorem mem_descendants_iff : id ∈ tree.descendants ancestor ↔ tree.Below id ancestor := by
  constructor
  · revert id
    refine forest.downward (motive := fun ancestor =>
      ∀ {id : NodeId}, id ∈ tree.descendants ancestor → tree.Below id ancestor) ?_ ancestor
    intro ancestor ih id member
    rw [forest.descendants_eq, List.mem_flatMap] at member
    obtain ⟨child, listed, member⟩ := member
    have link := below_of_parent? (forest.mem_children_iff.mp listed)
    rcases List.mem_cons.mp member with rfl | deeper
    · exact link
    · exact (ih child listed deeper).trans link
  · intro below
    induction below with
    | single link =>
        rw [forest.descendants_eq, List.mem_flatMap]
        exact ⟨id, forest.mem_children_iff.mpr link, List.mem_cons_self⟩
    | tail _ link ih =>
        rw [forest.descendants_eq, List.mem_flatMap]
        exact ⟨_, forest.mem_children_iff.mpr link, List.mem_cons_of_mem _ ih⟩

/-- The iteration downwards ends with the descendants of the node. -/
theorem downwardWalk (id : NodeId) :
    DownwardWalk tree (tree.children id) (tree.descendants id) := by
  have subtree : ∀ id pending visited, DownwardWalk tree pending visited →
      DownwardWalk tree (id :: pending) (id :: tree.descendants id ++ visited) := by
    refine forest.downward ?_
    intro id ih pending visited rest
    refine .step ?_
    rw [forest.descendants_eq]
    show DownwardWalk tree _ (((tree.children id).flatMap fun child =>
      child :: tree.descendants child) ++ visited)
    -- Each child on the stack is worked off before the ones below it.
    generalize tree.children id = listed at ih
    induction listed with
    | nil => exact rest
    | cons first others step =>
        rw [List.flatMap_cons, List.append_assoc]
        exact ih first List.mem_cons_self _ _
          (step fun child member => ih child (List.mem_cons_of_mem _ member))
  rw [forest.descendants_eq]
  generalize tree.children id = listed
  induction listed with
  | nil => exact .stop
  | cons first others step => exact subtree first others _ step

end Forest

/-! ## Content -/

namespace Forest

variable {tree : Tree} {id : NodeId} (forest : tree.Forest)
include forest

/-- Content below the room that is left in the store is complete. -/
theorem fragmentUpTo_of_room {room : Nat} (more : Nat)
    (enough : tree.size ≤ room + (tree.ancestors id).length) :
    tree.fragmentUpTo (room + more) id = tree.fragmentUpTo room id := by
  induction room generalizing id with
  | zero =>
      have outside : tree.size ≤ id := by
        refine Nat.le_of_not_lt fun inside => ?_
        have bound := forest.length_ancestors_lt inside
        omega
      cases more with
      | zero => rfl
      | succ more => simp [fragmentUpTo, kind?_of_size_le outside]
  | succ room ih =>
      have parts : (tree.children id).filterMap (tree.fragmentUpTo (room + more)) =
          (tree.children id).filterMap (tree.fragmentUpTo room) := by
        refine List.filterMap_congr fun child member => ih ?_
        rw [forest.length_ancestors_of_mem_children member]
        omega
      rw [Nat.succ_add]
      simp only [fragmentUpTo, parts]

/-- A greater bound on the levels adds nothing to the content of a node. -/
theorem fragmentUpTo_eq_fragment? (id : NodeId) (more : Nat) :
    tree.fragmentUpTo (tree.size + more) id = tree.fragment? id :=
  forest.fragmentUpTo_of_room more (Nat.le_add_right _ _)

end Forest

end Tree

end FirstPaint
