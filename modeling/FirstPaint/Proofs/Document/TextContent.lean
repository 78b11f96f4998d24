import FirstPaint.Proofs.Document.Ending
import FirstPaint.Proofs.Document.Placement

/-!
# Added text in the content of the nodes above

The content of a node is what stands in the nodes below it, in document order. In that order
a subtree is a block: what lies below a node is listed right behind it, wherever the list
starts. So two trees that differ only inside the subtree of a node list the same nodes in
front of the block and behind it (`Forest.descendants_around`).

Text that is added at the end of an element changes one text below the element, or brings
one. Its content comes last in the block of the element, because that text has nothing below
it. So in the content of each node above it comes right behind the content of the element,
and everything else is where it was (`appendText?_comesLast`). That texts have nothing below
them is not ensured by the edits, but asked of the tree.
-/

set_option autoImplicit false

namespace FirstPaint

namespace Tree

/-! ## The block of a subtree -/

section Blocks

variable {tree after : Tree} {id child parent top : NodeId}

namespace Forest

variable (forest : tree.Forest) (afterForest : after.Forest)
  (outside : ∀ other, ¬ tree.Within other id → after.children other = tree.children other)
include forest afterForest outside

/-- One level up from a node whose subtree contains all that differs. -/
theorem descendants_around_child (within : tree.Within id child)
    (link : tree.parent? child = some parent) :
    ∃ front back, tree.descendants parent = front ++ child :: tree.descendants child ++ back ∧
      after.descendants parent = front ++ child :: after.descendants child ++ back := by
  have apart : ¬ tree.Within parent id := fun inBlock =>
    forest.not_within_of_below (below_of_parent? link) (inBlock.trans within)
  obtain ⟨front, back, listed⟩ := forest.exists_listed link
  obtain ⟨notInFront, notBehind⟩ := forest.not_mem_of_listed listed
  -- The subtrees of the other children have nothing in common with the one that differs.
  have siblings {other : NodeId} (member : other ∈ front ++ child :: back)
      (different : other ≠ child) :
      other :: after.descendants other = other :: tree.descendants other := by
    refine congrArg (other :: ·) (forest.descendants_congr afterForest fun node inSibling => ?_)
    refine outside node fun inBlock => different ?_
    rw [← listed, forest.mem_children_iff] at member
    exact forest.eq_of_within member link inSibling (inBlock.trans within)
  refine ⟨front.flatMap fun other => other :: tree.descendants other,
    back.flatMap fun other => other :: tree.descendants other, ?_, ?_⟩
  · rw [forest.descendants_eq, listed]
    simp
  · have frontSame : (front.flatMap fun other => other :: after.descendants other) =
        front.flatMap fun other => other :: tree.descendants other :=
      List.flatMap_congr fun other member =>
        siblings (by simp [member]) fun same => notInFront (same ▸ member)
    have backSame : (back.flatMap fun other => other :: after.descendants other) =
        back.flatMap fun other => other :: tree.descendants other :=
      List.flatMap_congr fun other member =>
        siblings (by simp [member]) fun same => notBehind (same ▸ member)
    rw [afterForest.descendants_eq, outside parent apart, listed, ← frontSame, ← backSame]
    simp

/-- **A subtree is a block among the descendants of every node above it**, and what differs
inside the block differs nowhere else. -/
theorem descendants_around (below : tree.Below id top) :
    ∃ front back, tree.descendants top = front ++ id :: tree.descendants id ++ back ∧
      after.descendants top = front ++ id :: after.descendants id ++ back := by
  induction below with
  | single link => exact forest.descendants_around_child afterForest outside (.inl rfl) link
  | @tail middle _ below link ih =>
      obtain ⟨innerFront, innerBack, inner, innerAfter⟩ := ih
      obtain ⟨front, back, listed, listedAfter⟩ :=
        forest.descendants_around_child afterForest outside (.inr below) link
      refine ⟨front ++ middle :: innerFront, innerBack ++ back, ?_, ?_⟩
      · rw [listed, inner]
        simp
      · rw [listedAfter, innerAfter]
        simp

omit afterForest outside in
/-- The nodes of the block stand nowhere else. -/
theorem not_mem_around {node : NodeId} {front back : List NodeId}
    (listed : tree.descendants top = front ++ id :: tree.descendants id ++ back)
    (within : tree.Within node id) : node ∉ front ∧ node ∉ back := by
  have inBlock : node ∈ id :: tree.descendants id :=
    List.mem_cons.mpr (within.imp_right forest.mem_descendants_iff.mpr)
  have distinct := forest.nodup_descendants top
  rw [listed] at distinct
  obtain ⟨frontDistinct, -, behind⟩ := List.nodup_append.mp distinct
  obtain ⟨-, -, ahead⟩ := List.nodup_append.mp frontDistinct
  exact ⟨fun inFront => ahead node inFront node inBlock rfl,
    fun inBack => behind node (List.mem_append_right _ inBlock) node inBack rfl⟩

end Forest

end Blocks

/-! ## Content -/

/-- Texts, comments and marked sections have nothing below them. -/
def LeavesChildless (tree : Tree) : Prop :=
  ∀ id < tree.size, ∀ kind ∈ tree.kind? id, kind.isLeaf = true → tree.children id = []

instance (tree : Tree) : Decidable tree.LeavesChildless :=
  inferInstanceAs (Decidable (∀ id < tree.size, ∀ kind ∈ tree.kind? id,
    kind.isLeaf = true → tree.children id = []))

/-- The character data of nodes, one after another. -/
def dataOf (tree : Tree) (list : List NodeId) : String :=
  String.join (list.filterMap tree.characterData?)

section Content

variable {tree after : Tree} {id parent child : NodeId}

theorem dataOf_append (front back : List NodeId) :
    tree.dataOf (front ++ back) = tree.dataOf front ++ tree.dataOf back := by
  rw [dataOf, List.filterMap_append, String.join_append]
  rfl

theorem dataOf_cons (noData : tree.characterData? id = none) (list : List NodeId) :
    tree.dataOf (id :: list) = tree.dataOf list := by
  rw [dataOf, List.filterMap_cons_none noData]
  rfl

theorem dataOf_congr {list : List NodeId}
    (same : ∀ id ∈ list, after.kind? id = tree.kind? id) : after.dataOf list = tree.dataOf list :=
  congrArg String.join (List.filterMap_congr fun id member => characterData?_congr (same id member))

theorem textContent_eq_dataOf (noData : tree.characterData? id = none) :
    tree.textContent id = tree.dataOf (tree.descendants id) := by
  rw [textContent, noData]
  rfl

/-- The content of a node falls into that of an element below it and what stands around it. -/
theorem textContent_of_around {top : NodeId} {front back : List NodeId}
    (noData : tree.characterData? top = none) (isElement : (tree.element? id).isSome = true)
    (listed : tree.descendants top = front ++ id :: tree.descendants id ++ back) :
    tree.textContent top = tree.dataOf front ++ tree.textContent id ++ tree.dataOf back := by
  have elementNoData := characterData?_of_element? isElement
  rw [textContent_eq_dataOf noData, textContent_eq_dataOf elementNoData, listed, dataOf_append,
    dataOf_append, dataOf_cons elementNoData]

theorem LeavesChildless.childless_of_text? (leaves : tree.LeavesChildless)
    (isText : (tree.text? id).isSome = true) : tree.children id = [] := by
  obtain ⟨data, found⟩ := Option.isSome_iff_exists.mp isText
  have known := text?_eq_some_iff.mp found
  exact leaves id (lt_size_of_kind? known) _ known rfl

/-- A node with something below it has no data of its own. -/
theorem LeavesChildless.characterData?_of_mem (leaves : tree.LeavesChildless)
    (listed : child ∈ tree.children parent) : tree.characterData? parent = none := by
  have noLeaf : ∀ kind ∈ tree.kind? parent, kind.isLeaf ≠ true := fun kind known leaf =>
    List.ne_nil_of_mem listed (leaves parent (lt_size_of_kind? known) kind known leaf)
  unfold characterData?
  split
  next known => exact absurd rfl (noLeaf _ known)
  next known => exact absurd rfl (noLeaf _ known)
  next => rfl

end Content

/-! ## Added text -/

section Added

variable {before after : Tree} {holder id top : NodeId} {more : String}

/-- One child of the node is written to, which may be a new one. -/
theorem TextAdded.exists_text (added : TextAdded before after holder more)
    (forest : before.Forest) :
    ∃ text, after.parent? text = some holder ∧
      ∀ other, other ≠ text → after.kind? other = before.kind? other := by
  cases added with
  | @lengthened last isLast lengthened =>
      have link := forest.mem_children_iff.mp (List.mem_of_getLast? isLast)
      exact ⟨last, (lengthened.parent? last).trans link, lengthened.kind?⟩
  | inserted _ inserted =>
      refine ⟨before.size, by rw [inserted.parent?, if_pos rfl], fun other different => ?_⟩
      rw [inserted.kind?, if_neg different]

variable (added : TextAdded before after holder more) (forest : before.Forest)
include added forest

/-- Added text comes into the content of a node above right behind the content of the element. -/
theorem TextAdded.contentAbove (leaves : before.LeavesChildless)
    (isElement : (before.element? holder).isSome = true) (below : before.Below holder top) :
    ∃ front back, before.textContent top = front ++ before.textContent holder ++ back ∧
      after.textContent top = front ++ after.textContent holder ++ back := by
  have afterForest := added.forest forest
  obtain ⟨front, back, listed, listedAfter⟩ :=
    forest.descendants_around afterForest
      (fun other apart => added.children_of_ne fun same => apart (.inl same)) below
  obtain ⟨text, textLink, kinds⟩ := added.exists_text forest
  -- The text is listed in the block of the element, hence nowhere else.
  obtain ⟨notInFront, notBehind⟩ :=
    afterForest.not_mem_around listedAfter (.inr (below_of_parent? textLink))
  have frontSame : after.dataOf front = before.dataOf front :=
    dataOf_congr fun other member => kinds other (ne_of_mem_of_not_mem member notInFront)
  have backSame : after.dataOf back = before.dataOf back :=
    dataOf_congr fun other member => kinds other (ne_of_mem_of_not_mem member notBehind)
  -- The node above has children, so it is not the text, and its content is that below it.
  have aboveAfter : after.Below holder top := by
    rw [← afterForest.mem_descendants_iff, listedAfter]
    simp
  have notText : top ≠ text := by
    rintro rfl
    exact afterForest.not_below_self ((below_of_parent? textLink).trans aboveAfter)
  obtain ⟨child, -, topLink⟩ := Relation.TransGen.tail'_iff.mp below
  have noData := leaves.characterData?_of_mem (forest.mem_children_iff.mpr topLink)
  have noDataAfter := (characterData?_congr (kinds top notText)).trans noData
  refine ⟨before.dataOf front, before.dataOf back,
    textContent_of_around noData isElement listed, ?_⟩
  rw [textContent_of_around noDataAfter (by rwa [added.element?_eq]) listedAfter, frontSame,
    backSame]

/-- The content of a node that is not above the element, and no text at its end, stays. -/
theorem TextAdded.contentElsewhere (apart : ¬ before.Within holder id)
    (same : after.kind? id = before.kind? id) : after.textContent id = before.textContent id := by
  have afterForest := added.forest forest
  obtain ⟨text, link, kinds⟩ := added.exists_text forest
  have listed : after.descendants id = before.descendants id :=
    forest.descendants_congr afterForest fun other within =>
      added.children_of_ne fun isHolder => apart (isHolder ▸ within)
  have kept : ∀ other ∈ before.descendants id, after.kind? other = before.kind? other := by
    intro other member
    refine kinds other ?_
    rintro rfl
    rw [← listed, afterForest.mem_descendants_iff, below_iff_of_parent? link] at member
    rcases member with same | above
    · exact apart (.inl same)
    · rw [← afterForest.mem_descendants_iff, listed, forest.mem_descendants_iff] at above
      exact apart (.inr above)
  rw [Tree.textContent, Tree.textContent, characterData?_congr same]
  split
  next => rfl
  next =>
    rw [listed]
    exact dataOf_congr kept

end Added

/-- What comes of a text that is added at the end of an element. -/
structure TextComesLast (before after : Tree) (holder : NodeId) (more : String) : Prop where
  /-- The last text of the element is longer, or a new one is its last child. -/
  added : TextAdded before after holder more
  /-- One node is created at most. -/
  size_le : after.size ≤ before.size + 1
  /-- The text comes last in the content of the element. -/
  content : after.textContent holder = before.textContent holder ++ more
  /-- In the content of a node above it comes right behind the content of the element. -/
  contentAbove : ∀ top ∈ before.ancestors holder, ∃ front back,
    before.textContent top = front ++ before.textContent holder ++ back ∧
      after.textContent top = front ++ before.textContent holder ++ more ++ back
  /-- The content of any other node stays, but for that of the last text of the element. -/
  contentElsewhere : ∀ {id}, id < before.size → id ≠ holder → id ∉ before.ancestors holder →
    (before.lastChild? holder = some id → before.text? id = none) →
      after.textContent id = before.textContent id
  /-- No node is written to but the element and its last text. -/
  kept : ∀ {id}, id < before.size → id ≠ holder →
    (before.lastChild? holder = some id → before.text? id = none) →
      after.node? id = before.node? id

/-- **Text that is added at the end of an element comes last in its content**, and right behind
that content in the content of every node above, whether a text grows or a new one is created.
Nothing else changes. -/
theorem appendText?_comesLast {tree : Tree} (reachable : tree.Reachable)
    (leaves : tree.LeavesChildless) {holder : NodeId}
    (isElement : (tree.element? holder).isSome = true) (more : String) :
    ∃ after, tree.appendText? holder more = some after ∧ TextComesLast tree after holder more := by
  have forest := reachable.forest
  obtain ⟨element, found⟩ := Option.isSome_iff_exists.mp isElement
  have inside := lt_size_of_element? found
  obtain ⟨after, done, -⟩ := forest.appendText? inside more
  have added := forest.textAdded inside more
  rw [appendText, done, Option.getD_some] at added
  have content := added.textContent forest isElement fun _ _ isText =>
    leaves.childless_of_text? isText
  refine ⟨after, done, {
    added
    size_le := ?_
    content
    contentAbove := fun top above => ?_
    contentElsewhere := fun old different notAbove noText => ?_
    kept := fun old different noText => ?_ }⟩
  · cases added with
    | lengthened _ lengthened => rw [lengthened.size]; exact Nat.le_succ _
    | inserted _ inserted => rw [inserted.size]
  · obtain ⟨front, back, listed, listedAfter⟩ :=
      added.contentAbove forest leaves isElement (forest.mem_ancestors_iff.mp above)
    rw [content, ← String.append_assoc] at listedAfter
    exact ⟨front, back, listed, listedAfter⟩
  · rw [forest.mem_ancestors_iff] at notAbove
    exact added.contentElsewhere forest (not_or.mpr ⟨Ne.symm different, notAbove⟩)
      (added.kind?_old old noText)
  · exact node?_congr (added.kind?_old old noText) (added.parent?_old old)
      (added.children_of_ne different)

/-- A section with a text, a paragraph and a marked section. In the paragraph a text is followed
by an element with a text of its own. -/
def essayTree : Tree :=
  built [.createElement "section" [], .append root 1, .create (.text "x"), .append 1 2,
    .createElement "p" [], .append 1 3, .create (.text "a"), .append 3 4,
    .createElement "b" [], .append 3 5, .create (.text "c"), .append 5 6,
    .create (.cdata "z"), .append 1 7]

theorem appendText?_comesLast_essayTree :
    essayTree.Reachable ∧ essayTree.LeavesChildless ∧ essayTree.textContent 1 = "xacz" ∧
      (∃ after, essayTree.appendText? 3 "!" = some after ∧ after.textContent 3 = "ac!" ∧
        TextComesLast essayTree after 3 "!") ∧
      ∃ after, essayTree.appendText? 5 "!" = some after ∧ after.textContent 5 = "c!" ∧
        after.node? 4 = essayTree.node? 4 ∧ TextComesLast essayTree after 5 "!" := by
  have reachable : essayTree.Reachable := reachable_built (by decide +kernel)
  have leaves : essayTree.LeavesChildless := by decide +kernel
  obtain ⟨created, createdDone, createdLast⟩ :=
    appendText?_comesLast reachable leaves
      (by decide +kernel : (essayTree.element? 3).isSome = true) "!"
  obtain ⟨grown, grownDone, grownLast⟩ :=
    appendText?_comesLast reachable leaves
      (by decide +kernel : (essayTree.element? 5).isSome = true) "!"
  refine ⟨reachable, leaves, by decide +kernel, ⟨created, createdDone, ?_, createdLast⟩,
    ⟨grown, grownDone, ?_, ?_, grownLast⟩⟩
  · rw [createdLast.content]
    decide +kernel
  · rw [grownLast.content]
    decide +kernel
  · exact grownLast.kept (by decide +kernel) (by decide) (by decide +kernel)

end Tree

end FirstPaint
