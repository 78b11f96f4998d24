import FirstPaint.Proofs.Document.Transfer
import FirstPaint.Proofs.Markup.Unambiguity

/-!
# Which nodes stand where

A tree is well placed if nothing stands above the document and only documents and elements have
children. Then everything below a node is seen in its content, and what is in one tree with the
document is below it (`WellPlaced.surveyed`).

No edit checks this. A placement is refused only if it would put a node below itself, so the
document can be placed below another node, and a node can be placed below a text, a comment or a
marked section, where it is written nowhere. Which edits do so is said by `Edit.Misplaces`. On a
well placed tree such an edit leads to one that is not, and every other edit to one that is
(`Forest.perform?_wellPlaced_iff`); so the trees of a course of edits are all well placed exactly if
none of the edits misplaces a node (`Course.wellPlaced_throughout`).
-/

set_option autoImplicit false

namespace FirstPaint

namespace Tree

/-! ## Well placed trees -/

/-- The node is one that may have children: a document or an element. -/
def MayHold (tree : Tree) (id : NodeId) : Prop := ∃ kind ∈ tree.kind? id, kind.isLeaf = false

instance (tree : Tree) (id : NodeId) : Decidable (tree.MayHold id) :=
  decidable_of_iff ((tree.kind? id).any (!·.isLeaf) = true) (by
    simp [MayHold, Option.any_eq_true])

/-- A tree in which nodes stand only where they are seen. -/
structure WellPlaced (tree : Tree) : Prop where
  /-- Nothing stands above the document. -/
  top : tree.parent? root = none
  /-- Only documents and elements have children. -/
  holders : ∀ {parent child}, child ∈ tree.children parent → tree.MayHold parent

section WellPlaced

variable {tree after : Tree}

/-- Read from below: whatever is a parent may be one. -/
theorem Forest.wellPlaced_iff (forest : tree.Forest) : tree.WellPlaced ↔
    tree.parent? root = none ∧
      ∀ child parent, tree.parent? child = some parent → tree.MayHold parent := by
  constructor
  · exact fun wellPlaced =>
      ⟨wellPlaced.top, fun _ _ link => wellPlaced.holders (forest.mem_children_iff.mpr link)⟩
  · exact fun ⟨top, holders⟩ => ⟨top, fun listed => holders _ _ (forest.mem_children_iff.mp listed)⟩

theorem wellPlaced_empty : (∅ : Tree).WellPlaced where
  top := rfl
  holders {parent child} listed := by
    have childless : (∅ : Tree).children parent = [] := by cases parent <;> rfl
    rw [childless] at listed
    exact absurd listed List.not_mem_nil

/-- Nothing is lost by an edit that keeps the links, and lets each parent hold its children. -/
theorem WellPlaced.congr (wellPlaced : tree.WellPlaced) (links : SameLinks tree after)
    (kept : ∀ id, tree.MayHold id → after.MayHold id) : after.WellPlaced where
  top := (links.parent? root).trans wellPlaced.top
  holders listed := kept _ (wellPlaced.holders (links.children _ ▸ listed))

theorem MayHold.of_kind?_eq {id : NodeId} (mayHold : tree.MayHold id)
    (same : after.kind? id = tree.kind? id) : after.MayHold id := by
  rwa [MayHold, same]

theorem MayHold.inside {id : NodeId} (mayHold : tree.MayHold id) : id < tree.size := by
  obtain ⟨kind, known, -⟩ := mayHold
  exact lt_size_of_kind? known

theorem MayHold.create {id : NodeId} (mayHold : tree.MayHold id) (kind : NodeKind) :
    (tree.create kind).2.MayHold id :=
  mayHold.of_kind?_eq (by rw [kind?_create, if_neg (Nat.ne_of_lt mayHold.inside)])

theorem MayHold.setAttributes {id : NodeId} (mayHold : tree.MayHold id) (holder : NodeId)
    (change : Attributes → Attributes) : (tree.modifyAttributes holder change).MayHold id := by
  obtain ⟨kind, known, noLeaf⟩ := mayHold
  by_cases same : id = holder
  · refine ⟨kind.withAttributes change, ?_, ?_⟩
    · rw [Option.mem_def, kind?_modifyAttributes, if_pos same, ← same, known, Option.map_some]
    · cases kind <;> exact noLeaf
  · exact ⟨kind, by rwa [kind?_modifyAttributes_of_ne change same], noLeaf⟩

theorem MayHold.of_nodes {id : NodeId} (mayHold : tree.MayHold id)
    (same : after.nodes = tree.nodes) : after.MayHold id :=
  mayHold.of_kind?_eq (by simp only [kind?, node?, same])

theorem MayHold.ensureId {id : NodeId} (mayHold : tree.MayHold id) (holder : NodeId) :
    (tree.ensureId holder).2.MayHold id := by
  unfold Tree.ensureId
  split
  next => exact mayHold
  next =>
    exact MayHold.setAttributes (mayHold.of_nodes (freshId_nodes _ tree)) holder _

theorem SameContent.mayHold_iff (same : SameContent tree after) {id : NodeId} :
    after.MayHold id ↔ tree.MayHold id := by
  rw [MayHold, same.kind?]
  exact Iff.rfl

/-- Taking links away keeps a tree well placed. -/
theorem WellPlaced.of_loosened (wellPlaced : tree.WellPlaced) (forest : tree.Forest)
    (afterForest : after.Forest) (same : SameContent tree after)
    (loosened : ∀ id, after.parent? id = none ∨ after.parent? id = tree.parent? id) :
    after.WellPlaced := by
  obtain ⟨top, holders⟩ := forest.wellPlaced_iff.mp wellPlaced
  refine afterForest.wellPlaced_iff.mpr ⟨?_, fun child parent link => ?_⟩
  · exact (loosened root).elim id (·.trans top)
  · rcases loosened child with none | kept
    · exact absurd (none.symm.trans link) (by simp)
    · exact same.mayHold_iff.mpr (holders child parent (kept ▸ link))

end WellPlaced

/-! ## Placements -/

section Placements

variable {tree after : Tree} {parent child source target id : NodeId}

/-- The placement puts the document below a node, or a node where it is not seen. -/
def MisplacesBelow (tree : Tree) (parent child : NodeId) : Prop :=
  ¬ tree.Within parent child ∧ (child = root ∨ ¬ tree.MayHold parent)

/-- A placement leads to a well placed tree unless it misplaces the node. -/
theorem Attached.wellPlaced_iff (attached : Attached tree parent child after)
    (forest : tree.Forest) (wellPlaced : tree.WellPlaced) :
    after.WellPlaced ↔ ¬ tree.MisplacesBelow parent child := by
  have afterForest := attached.forest forest
  cases attached with
  | refused refused =>
      refine iff_of_true wellPlaced fun misplaces => ?_
      exact Bool.false_ne_true (refused.symm.trans (forest.mayPlace_iff_not_within.mpr misplaces.1))
  | placed may permuted placed =>
      obtain ⟨top, holders⟩ := forest.wellPlaced_iff.mp wellPlaced
      have apart := forest.mayPlace_iff_not_within.mp may
      rw [MisplacesBelow, and_iff_right apart, not_or, not_not, afterForest.wellPlaced_iff]
      constructor
      · rintro ⟨stillTop, stillHolders⟩
        refine ⟨?_, placed.mayHold_iff.mp (stillHolders child parent ?_)⟩
        · rintro rfl
          rw [placed.parent?, if_pos rfl] at stillTop
          exact absurd stillTop (by simp)
        · rw [placed.parent?, if_pos rfl]
      · rintro ⟨notRoot, mayHold⟩
        refine ⟨by rw [placed.parent?, if_neg (Ne.symm notRoot), top], fun node holder link => ?_⟩
        rw [placed.parent?] at link
        split at link
        next => exact placed.mayHold_iff.mpr (Option.some.inj link ▸ mayHold)
        next => exact placed.mayHold_iff.mpr (holders node holder link)

/-- Children that are moved are misplaced if their new parent may not have any. The document is
not among them. -/
theorem Transferred.wellPlaced_iff {moved : List NodeId}
    (transferred : Transferred tree after source target moved) (forest : tree.Forest)
    (afterForest : after.Forest) (members : ∀ node ∈ moved, node ∈ tree.children source)
    (wellPlaced : tree.WellPlaced) :
    after.WellPlaced ↔ (∀ node ∈ moved, tree.MayHold target) := by
  obtain ⟨top, holders⟩ := forest.wellPlaced_iff.mp wellPlaced
  have notMoved : root ∉ moved := fun isMoved =>
    absurd (top.symm.trans (forest.mem_children_iff.mp (members root isMoved))) (by simp)
  rw [afterForest.wellPlaced_iff]
  constructor
  · rintro ⟨-, stillHolders⟩ node isMoved
    refine transferred.mayHold_iff.mp (stillHolders node target ?_)
    rw [transferred.parent?, if_pos isMoved]
  · intro mayHold
    refine ⟨?_, fun node holder link => transferred.mayHold_iff.mpr ?_⟩
    · rw [transferred.parent?, if_neg notMoved, top, ite_self]
    · rw [transferred.parent?] at link
      split at link
      next isMoved => exact Option.some.inj link ▸ mayHold node isMoved
      next =>
        split at link
        next => exact absurd link (by simp)
        next => exact holders node holder link

/-- Added text is misplaced below a node that may not have children. -/
theorem Forest.appendText?_wellPlaced (forest : tree.Forest) (wellPlaced : tree.WellPlaced)
    (inside : id < tree.size) (addition : String) :
    ∃ after, tree.appendText? id addition = some after ∧ after.Forest ∧
      (after.WellPlaced ↔ tree.MayHold id) := by
  have created : ∃ after, appendText?.appendNewText tree id addition = some after ∧
      after.Forest ∧ (after.WellPlaced ↔ tree.MayHold id) := by
    have links := SameLinks.create tree (.text addition)
    have newForest := forest.congr links
    have newPlaced : (tree.create (.text addition)).2.WellPlaced :=
      wellPlaced.congr links fun _ mayHold => mayHold.create _
    have apart : ¬ (tree.create (.text addition)).2.Within id tree.size := by
      rintro (rfl | below)
      · exact Nat.lt_irrefl _ inside
      · refine newForest.not_below_of_childless ?_ below
        rw [links.children, children_of_size_le (Nat.le_refl _)]
    obtain ⟨after, done, attached⟩ :=
      newForest.append? (lt_size_create_of_lt _ inside) (lt_size_create _)
    refine ⟨after, done, attached.forest newForest, ?_⟩
    have notRoot : ¬ tree.size = root := Nat.ne_zero_of_lt inside
    have sameKind : (tree.create (.text addition)).2.kind? id = tree.kind? id := by
      rw [kind?_create, if_neg (Nat.ne_of_lt inside)]
    rw [attached.wellPlaced_iff newForest newPlaced, MisplacesBelow, and_iff_right apart, not_or,
      not_not, and_iff_right notRoot, MayHold, sameKind]
    exact Iff.rfl
  unfold Tree.appendText?
  split
  next last isLast =>
    split
    next data isText =>
      have links := SameLinks.withText tree last (data ++ addition)
      refine ⟨_, rfl, forest.congr links, iff_of_true (wellPlaced.congr links ?_) ?_⟩
      · intro other mayHold
        refine mayHold.of_kind?_eq ?_
        rw [kind?_modify, if_neg]
        obtain ⟨kind, known, noLeaf⟩ := mayHold
        rintro rfl
        rw [text?_eq_some_iff.mp isText] at known
        cases known
        exact absurd noLeaf (by simp [NodeKind.isLeaf])
      · exact wellPlaced.holders (List.mem_of_getLast? isLast)
    next => exact created
  next => exact created

end Placements

/-! ## What is seen -/

end Tree

mutual

/-- The kinds of nodes that are seen in a fragment, in document order. -/
def Fragment.kinds : Fragment → List NodeKind
  | .document parts => .document :: Fragment.kindsAll parts
  | .element holder parts => .element holder :: Fragment.kindsAll parts
  | .text data => [.text data]
  | .comment data => [.comment data]
  | .cdata data => [.cdata data]

/-- The kinds of nodes that are seen in fragments one after another. -/
def Fragment.kindsAll : List Fragment → List NodeKind
  | [] => []
  | first :: rest => first.kinds ++ Fragment.kindsAll rest

end

theorem Fragment.kindsAll_eq (parts : List Fragment) :
    Fragment.kindsAll parts = parts.flatMap Fragment.kinds := by
  induction parts with
  | nil => rfl
  | cons first rest ih => rw [kindsAll, ih, List.flatMap_cons]

/-- A node that may have parts is seen with them, any other node alone. -/
theorem NodeKind.kinds_fragment (kind : NodeKind) (parts : List Fragment) :
    (kind.fragment parts).kinds =
      kind :: if kind.isLeaf = true then [] else parts.flatMap Fragment.kinds := by
  cases kind <;> simp [fragment, isLeaf, Fragment.kinds, Fragment.kindsAll_eq]

namespace Tree

/-- Nothing is out of sight. -/
structure Surveyed (tree : Tree) : Prop where
  /-- What is in one tree with the document is below it. -/
  connected : ∀ {id top}, tree.Within root top → tree.Within id top →
    id ∈ root :: tree.descendants root
  /-- A node is seen with everything below it. -/
  seen : ∀ {id}, id < tree.size → (tree.fragment? id).map Fragment.kinds =
    some ((id :: tree.descendants id).filterMap tree.kind?)

section Surveyed

variable {tree : Tree}

theorem flatMap_filterMap {α β γ : Type} {read : α → Option β} {view : β → List γ}
    {list : List α} {shown : α → List γ}
    (same : ∀ member ∈ list, (read member).map view = some (shown member)) :
    (list.filterMap read).flatMap view = list.flatMap shown := by
  induction list with
  | nil => rfl
  | cons first rest ih =>
      obtain ⟨value, found, shows⟩ := Option.map_eq_some_iff.mp (same first List.mem_cons_self)
      rw [List.filterMap_cons_some found, List.flatMap_cons, List.flatMap_cons, shows,
        ih fun member listed => same member (List.mem_cons_of_mem _ listed)]

theorem WellPlaced.seen (wellPlaced : tree.WellPlaced) (forest : tree.Forest) (id : NodeId) :
    id < tree.size → (tree.fragment? id).map Fragment.kinds =
      some ((id :: tree.descendants id).filterMap tree.kind?) := by
  refine forest.downward (motive := fun id => id < tree.size →
    (tree.fragment? id).map Fragment.kinds =
      some ((id :: tree.descendants id).filterMap tree.kind?)) ?_ id
  intro id ih inside
  obtain ⟨node, found⟩ := tree.node?_eq_some_of_lt inside
  have known : tree.kind? id = some node.kind := by rw [kind?, found, Option.map_some]
  have below : ((tree.children id).filterMap tree.fragment?).flatMap Fragment.kinds =
      (tree.descendants id).filterMap tree.kind? := by
    rw [flatMap_filterMap fun child listed => ih child listed (forest.child_lt listed),
      forest.descendants_eq, List.filterMap_flatMap]
  rw [forest.fragment?_eq, known, Option.map_some, Option.map_some, NodeKind.kinds_fragment,
    List.filterMap_cons_some known, below]
  split
  next leaf =>
    have childless : tree.children id = [] := by
      refine List.eq_nil_iff_forall_not_mem.mpr fun child listed => ?_
      obtain ⟨kind, same, noLeaf⟩ := wellPlaced.holders listed
      rw [known] at same
      cases same
      exact Bool.false_ne_true (noLeaf.symm.trans leaf)
    rw [forest.descendants_eq, childless]
    rfl
  next => rfl

/-- **In a well placed tree nothing is out of sight.** -/
theorem WellPlaced.surveyed (wellPlaced : tree.WellPlaced) (forest : tree.Forest) :
    tree.Surveyed where
  connected rootWithin within := by
    rcases rootWithin with rfl | above
    · exact forest.mem_cons_descendants_iff.mpr within
    · exact absurd above (not_below_of_parentless wellPlaced.top)
  seen := wellPlaced.seen forest _

end Surveyed

/-! ## Edits -/

/-- A call of an editing operation, or the direct change of what a node is. -/
inductive Edit where
  | call (call : Call)
  | relabel (id : NodeId) (kind : NodeKind)
deriving DecidableEq, Repr

namespace Edit

/-- An edit that names nodes of the store only. -/
def Within (tree : Tree) : Edit → Prop
  | call made => made.Within tree
  | relabel id _ => id < tree.size

instance (tree : Tree) : (edit : Edit) → Decidable (edit.Within tree)
  | call made => inferInstanceAs (Decidable (made.Within tree))
  | relabel id _ => inferInstanceAs (Decidable (id < tree.size))

/-- The tree after an edit. There is none if the edit would write to a node outside the store. -/
def perform? (tree : Tree) : Edit → Option Tree
  | call made => made.perform? tree
  | relabel id kind => tree.modify? id ({ · with kind })

/-- The edit puts the document below a node, or gives children to a node that may not have any,
be it one of these children or all, or a node that has them already. -/
def Misplaces (tree : Tree) : Edit → Prop
  | call (.append parent child) | call (.insertBefore parent child _)
  | call (.prepend parent child) => tree.MisplacesBelow parent child
  | call (.moveChildren source target) =>
    ¬ tree.MayHold target ∧ ∃ child ∈ tree.children source, ¬ tree.Within target child
  | call (.appendText id _) => ¬ tree.MayHold id
  | call _ => False
  | relabel id kind => kind.isLeaf = true ∧ tree.children id ≠ []

end Edit

section OneEdit

variable {tree : Tree} (forest : tree.Forest) (wellPlaced : tree.WellPlaced)
include forest wellPlaced

theorem Forest.relabel_wellPlaced {id : NodeId} (inside : id < tree.size) (kind : NodeKind) :
    ∃ next, tree.modify? id ({ · with kind }) = some next ∧ next.Forest ∧
      (next.WellPlaced ↔ ¬ (kind.isLeaf = true ∧ tree.children id ≠ [])) := by
  have links : SameLinks tree (tree.modify id ({ · with kind })) :=
    .modify tree id _ (fun _ => rfl) fun _ => rfl
  have relabelled : (tree.modify id ({ · with kind })).kind? id = some kind := by
    obtain ⟨node, found⟩ := tree.node?_eq_some_of_lt inside
    rw [kind?_modify, if_pos rfl, found]
    rfl
  refine ⟨_, modify?_eq_some _ inside, forest.congr links, ?_, ?_⟩
  · rintro ⟨-, holders⟩ ⟨leaf, notChildless⟩
    obtain ⟨child, listed⟩ := List.exists_mem_of_ne_nil _ notChildless
    obtain ⟨other, known, noLeaf⟩ := holders ((links.children id).symm ▸ listed)
    rw [relabelled] at known
    cases known
    exact Bool.false_ne_true (noLeaf.symm.trans leaf)
  · intro fits
    refine ⟨(links.parent? root).trans wellPlaced.top, fun {parent child} listed => ?_⟩
    rw [links.children] at listed
    by_cases same : parent = id
    · subst same
      refine ⟨kind, relabelled, ?_⟩
      exact Bool.eq_false_iff.mpr fun leaf => fits ⟨leaf, List.ne_nil_of_mem listed⟩
    · exact (wellPlaced.holders listed).of_kind?_eq (by rw [kind?_modify, if_neg same])

theorem Forest.detach?_wellPlaced {id : NodeId} (inside : id < tree.size) :
    ∃ next, tree.detach? id = some next ∧ next.Forest ∧ next.WellPlaced := by
  obtain ⟨next, done, detached⟩ := forest.detach?_spec inside
  have nextForest := detached.forest forest
  refine ⟨next, done, nextForest,
    wellPlaced.of_loosened forest nextForest detached.toSameContent fun other => ?_⟩
  rw [detached.parent?]
  exact ite_eq_or_eq _ _ _

theorem Forest.releaseChildren?_wellPlaced {id : NodeId} (inside : id < tree.size) :
    ∃ next, tree.releaseChildren? id = some next ∧ next.Forest ∧ next.WellPlaced := by
  obtain ⟨next, done, released⟩ := forest.releaseChildren?_spec inside
  have nextForest := released.forest forest
  refine ⟨next, done, nextForest,
    wellPlaced.of_loosened forest nextForest released.toSameContent fun other => ?_⟩
  rw [released.parent?]
  exact ite_eq_or_eq _ _ _

theorem Forest.moveChildren?_wellPlaced {source target : NodeId} (sourceInside : source < tree.size)
    (targetInside : target < tree.size) :
    ∃ next, tree.moveChildren? source target = some next ∧ next.Forest ∧
      (next.WellPlaced ↔
        ¬ (¬ tree.MayHold target ∧ ∃ child ∈ tree.children source, ¬ tree.Within target child)) := by
  obtain ⟨next, done, transferred⟩ := forest.moveChildren?_transferred sourceInside targetInside
  obtain ⟨same, sameDone, -, nextForest⟩ := forest.moveChildren? sourceInside targetInside
  rw [done] at sameDone
  cases sameDone
  refine ⟨next, done, nextForest, ?_⟩
  rw [transferred.wellPlaced_iff forest nextForest
    (fun node moved => (List.mem_filter.mp moved).1) wellPlaced]
  simp only [List.mem_filter, forest.mayPlace_iff_not_within]
  constructor
  · rintro held ⟨mayNot, child, listed, apart⟩
    exact mayNot (held child ⟨listed, apart⟩)
  · intro fits child ⟨listed, apart⟩
    by_contra mayNot
    exact fits ⟨mayNot, child, listed, apart⟩

/-- **An edit leads from a well placed tree to a well placed one unless it misplaces a node.** -/
theorem Forest.perform?_wellPlaced_iff {edit : Edit} (within : edit.Within tree) :
    ∃ next, edit.perform? tree = some next ∧ next.Forest ∧
      (next.WellPlaced ↔ ¬ edit.Misplaces tree) := by
  -- An edit that misplaces nothing by its kind.
  have harmless : ∀ {next}, SameLinks tree next → (∀ id, tree.MayHold id → next.MayHold id) →
      next.Forest ∧ (next.WellPlaced ↔ ¬ False) := fun links kept =>
    ⟨forest.congr links, iff_of_true (wellPlaced.congr links kept) not_false⟩
  have loosened : ∀ {result : Option Tree},
      (∃ next, result = some next ∧ next.Forest ∧ next.WellPlaced) →
        ∃ next, result = some next ∧ next.Forest ∧ (next.WellPlaced ↔ ¬ False) :=
    fun ⟨next, done, nextForest, nextPlaced⟩ =>
      ⟨next, done, nextForest, iff_of_true nextPlaced not_false⟩
  cases edit with
  | relabel id kind => exact forest.relabel_wellPlaced wellPlaced within kind
  | call call =>
      cases call with
      | create kind => exact ⟨_, rfl, harmless (.create tree kind) fun _ held => held.create kind⟩
      | createElement tag pairs =>
          exact ⟨_, rfl, harmless (.create tree _) fun _ held => held.create _⟩
      | append parent child =>
          obtain ⟨next, done, attached⟩ :=
            forest.append? (within parent (by simp [Call.ids])) (within child (by simp [Call.ids]))
          exact ⟨next, done, attached.forest forest, attached.wellPlaced_iff forest wellPlaced⟩
      | insertBefore parent child reference =>
          obtain ⟨next, done, attached⟩ := forest.insertBefore?
            (within parent (by simp [Call.ids])) (within child (by simp [Call.ids])) reference
          exact ⟨next, done, attached.forest forest, attached.wellPlaced_iff forest wellPlaced⟩
      | prepend parent child =>
          obtain ⟨next, done, attached⟩ :=
            forest.prepend? (within parent (by simp [Call.ids])) (within child (by simp [Call.ids]))
          exact ⟨next, done, attached.forest forest, attached.wellPlaced_iff forest wellPlaced⟩
      | removeChild parent child =>
          by_cases link : tree.parent? child = some parent
          · obtain ⟨next, done, nextForest, iff⟩ :=
              loosened (forest.detach?_wellPlaced wellPlaced (lt_size_of_parent? link))
            exact ⟨next, (if_pos link).trans done, nextForest, iff⟩
          · exact ⟨tree, if_neg link, harmless (.refl tree) fun _ held => held⟩
      | detach id =>
          exact loosened (forest.detach?_wellPlaced wellPlaced (within id (by simp [Call.ids])))
      | releaseChildren id =>
          exact loosened
            (forest.releaseChildren?_wellPlaced wellPlaced (within id (by simp [Call.ids])))
      | moveChildren source target =>
          exact forest.moveChildren?_wellPlaced wellPlaced (within source (by simp [Call.ids]))
            (within target (by simp [Call.ids]))
      | appendText id addition =>
          obtain ⟨next, done, nextForest, iff⟩ := forest.appendText?_wellPlaced wellPlaced
            (within id (by simp [Call.ids])) addition
          exact ⟨next, done, nextForest, iff.trans not_not.symm⟩
      | setAttribute id name value =>
          exact ⟨_, rfl, harmless (.setAttribute tree id name value)
            fun _ held => held.setAttributes id _⟩
      | eraseAttribute id name =>
          exact ⟨_, rfl, harmless (.modifyAttributes tree id _)
            fun _ held => held.setAttributes id _⟩
      | freshName start => exact ⟨_, rfl, harmless (.of_nodes rfl) fun _ held => held.of_nodes rfl⟩
      | ensureId id =>
          exact ⟨_, rfl, harmless (ensureId_sameLinks tree id) fun _ held => held.ensureId id⟩

end OneEdit

/-! ## Courses of edits -/

/-- A course of edits that starts with the empty document: the edits with the trees on which they
were performed, the latest first, and the tree that they lead to. -/
inductive Course : List (Tree × Edit) → Tree → Prop where
  | start : Course [] ∅
  | next {past : List (Tree × Edit)} {tree next : Tree} (edit : Edit) (course : Course past tree)
      (within : edit.Within tree) (performed : edit.perform? tree = some next) :
      Course ((tree, edit) :: past) next

section Courses

variable {past : List (Tree × Edit)} {tree : Tree}

theorem Course.forest (course : Course past tree) : tree.Forest := by
  induction course with
  | start => exact forest_empty
  | @next _ tree after edit _ within performed ih =>
      cases edit with
      | call made =>
          have within : made.Within tree := within
          obtain ⟨next, done, nextForest⟩ := ih.perform? within
          cases performed.symm.trans done
          exact nextForest
      | relabel id kind =>
          cases performed.symm.trans (modify?_eq_some _ within)
          exact ih.congr (.modify tree id _ (fun _ => rfl) fun _ => rfl)

/-- **The trees of a course are well placed exactly as long as no edit misplaces a node**, and
nothing is out of sight in them then. -/
theorem Course.wellPlaced_throughout (course : Course past tree) :
    ((tree.WellPlaced ∧ ∀ step ∈ past, step.1.WellPlaced) ↔
      ∀ step ∈ past, ¬ step.2.Misplaces step.1) ∧ (tree.WellPlaced → tree.Surveyed) := by
  refine ⟨?_, fun wellPlaced => wellPlaced.surveyed course.forest⟩
  induction course with
  | start => exact iff_of_true ⟨wellPlaced_empty, by simp⟩ (by simp)
  | @next _ tree after edit course within performed ih =>
      have step (wellPlaced : tree.WellPlaced) : after.WellPlaced ↔ ¬ edit.Misplaces tree := by
        obtain ⟨next, done, -, iff⟩ := course.forest.perform?_wellPlaced_iff wellPlaced within
        cases performed.symm.trans done
        exact iff
      rw [List.forall_mem_cons, List.forall_mem_cons, ← ih]
      constructor
      · rintro ⟨afterPlaced, wellPlaced, earlier⟩
        exact ⟨(step wellPlaced).mp afterPlaced, wellPlaced, earlier⟩
      · rintro ⟨fits, wellPlaced, earlier⟩
        exact ⟨(step wellPlaced).mpr fits, wellPlaced, earlier⟩

/-- An element with a comment below it, and a text. -/
def annotatedTree : Tree :=
  built [.createElement "b" [], .create (.comment "note"), .create (.text "data"), .append 1 2]

/-- The comment has come below the text. -/
def strayTree : Tree :=
  built [.createElement "b" [], .create (.comment "note"), .create (.text "data"), .append 1 2,
    .append 3 2]

theorem Course.wellPlaced_throughout_strayTree :
    annotatedTree.WellPlaced ∧ annotatedTree.Surveyed ∧ ¬ strayTree.WellPlaced := by
  have nodes : Course _ (built [.createElement "b" [], .create (.comment "note"),
      .create (.text "data")]) :=
    .next (.call (.create (.text "data")))
      (.next (.call (.create (.comment "note")))
        (.next (.call (.createElement "b" [])) .start (by decide) rfl) (by decide) rfl)
      (by decide) rfl
  have sheltered : Course _ annotatedTree :=
    .next (.call (.append 1 2)) nodes (by decide) rfl
  have stray : Course _ strayTree :=
    .next (.call (.append 3 2)) sheltered (by decide) rfl
  obtain ⟨placed, earlier⟩ := sheltered.wellPlaced_throughout.1.mpr (by
    simp only [List.forall_mem_cons, List.not_mem_nil, false_imp_iff, implies_true, and_true,
      Edit.Misplaces, not_false_eq_true]
    exact fun misplaces => misplaces.2.elim (by decide) fun mayNot => mayNot (by decide))
  refine ⟨placed, sheltered.wellPlaced_throughout.2 placed, fun strayPlaced => ?_⟩
  have fits := stray.wellPlaced_throughout.1.mp
    ⟨strayPlaced, List.forall_mem_cons.mpr ⟨placed, earlier⟩⟩ _ List.mem_cons_self
  exact fits ⟨sheltered.forest.mayPlace_iff_not_within.mp (by decide), .inr (by decide)⟩

/-- The document can come below another node, and nodes can come below nodes that are written
without them. -/
theorem not_wellPlaced_of_reachable :
    (¬ ∀ tree : Tree, tree.Reachable → tree.parent? root = none) ∧
      ¬ ∀ tree : Tree, tree.Reachable → ∀ parent, tree.children parent ≠ [] →
        tree.MayHold parent := by
  constructor
  · intro claim
    have parentless := claim (built [.createElement "div" [], .append 1 root])
      (reachable_built (by decide))
    exact absurd parentless (by decide)
  · intro claim
    have held := claim strayTree (reachable_built (by decide)) 3 (by decide)
    exact absurd held (by decide)

end Courses

end Tree

end FirstPaint
