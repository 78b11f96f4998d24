import FirstPaint.Pass.ServerRendering
import FirstPaint.Proofs.Document.Relinking

/-!
# How rendering changes a tree

Until the boilerplate is taken out, rendering only lets a tree grow: nodes are
added, attributes are written, and text is added at the end of a text node. No
node that was there loses its parent. `Grows` says this of two trees. Its scope names
the nodes whose attributes may have been written, the nodes that may have received
children, and the elements that may have been added; everything else about the
earlier nodes is as it was.

Growth is built up from a start by steps (`create`, `attach`, `relabel`,
`lengthen`). What it keeps is read off once: ways upwards from earlier nodes, their
tags, and the html element with its head.
-/

set_option autoImplicit false

namespace FirstPaint

/-- The nodes that a growth may change: those whose attributes it may write, and those
to which it may give children. -/
structure Scope where
  written : NodeId → Prop
  given : NodeId → Prop

/-- The node is of a kind that may be added, where only elements are restricted. -/
def NodeKind.Allowed (added : Element → Prop) : NodeKind → Prop
  | .element holder => added holder
  | .document | .text _ | .comment _ | .cdata _ => True

/-- What may become of the kind of a node: data of a text grows at its end, and an
element may get other attributes. -/
inductive NodeKind.Extends : NodeKind → NodeKind → Prop where
  | same (kind : NodeKind) : Extends kind kind
  | text (data more : String) : Extends (.text data) (.text (data ++ more))
  | attributes (tag : String) (old new : Attributes) :
      Extends (.element ⟨tag, old⟩) (.element ⟨tag, new⟩)

theorem NodeKind.Extends.trans {first second third : NodeKind} (earlier : first.Extends second)
    (later : second.Extends third) : first.Extends third := by
  cases earlier with
  | same => exact later
  | text data more =>
      cases later with
      | same => exact .text data more
      | text _ further => rw [String.append_assoc]; exact .text data (more ++ further)
  | attributes tag old new =>
      cases later with
      | same => exact .attributes tag old new
      | attributes _ _ newest => exact .attributes tag old newest

theorem NodeKind.Extends.withAttributes (change : Attributes → Attributes) (kind : NodeKind) :
    kind.Extends (kind.withAttributes change) := by
  cases kind with
  | element holder => exact .attributes holder.tag holder.attributes (change holder.attributes)
  | document | text | comment | cdata => exact .same _

namespace Tree

/-- A tree that has grown out of another one. -/
structure Grows (scope : Scope) (added : Element → Prop) (before after : Tree) : Prop where
  forest : after.Forest
  size_le : before.size ≤ after.size
  parent? : ∀ {id}, id < before.size → after.parent? id = before.parent? id
  children : ∀ {id}, id < before.size → ¬ scope.given id →
    after.children id = before.children id
  kind? : ∀ {id kind}, before.kind? id = some kind →
    ∃ next, after.kind? id = some next ∧ kind.Extends next
  element? : ∀ {id}, id < before.size → ¬ scope.written id →
    after.element? id = before.element? id
  fresh : ∀ {id element}, before.size ≤ id → after.element? id = some element →
    added element

namespace Grows

variable {scope : Scope} {added : Element → Prop} {before middle after : Tree} {id : NodeId}

theorem refl (forest : before.Forest) : Grows scope added before before where
  forest := forest
  size_le := Nat.le_refl _
  parent? _ := rfl
  children _ _ := rfl
  kind? found := ⟨_, found, .same _⟩
  element? _ _ := rfl
  fresh outside found := absurd (lt_size_of_element? found) (Nat.not_lt_of_le outside)

/-- One growth after another, where attributes are written at the start only to
nodes of the start. -/
theorem trans (old : ∀ id, scope.written id → id < before.size)
    (earlier : Grows scope added before middle)
    (later : Grows scope added middle after) :
    Grows scope added before after where
  forest := later.forest
  size_le := Nat.le_trans earlier.size_le later.size_le
  parent? inside :=
    (later.parent? (Nat.lt_of_lt_of_le inside earlier.size_le)).trans (earlier.parent? inside)
  children inside apart :=
    (later.children (Nat.lt_of_lt_of_le inside earlier.size_le) apart).trans
      (earlier.children inside apart)
  kind? found := by
    obtain ⟨next, found, extends_next⟩ := earlier.kind? found
    obtain ⟨last, found, extends_last⟩ := later.kind? found
    exact ⟨last, found, extends_next.trans extends_last⟩
  element? inside apart :=
    (later.element? (Nat.lt_of_lt_of_le inside earlier.size_le) apart).trans
      (earlier.element? inside apart)
  fresh {id element} outside found := by
    by_cases isNew : middle.size ≤ id
    · exact later.fresh isNew found
    · have apart : ¬ scope.written id := fun written => Nat.not_lt_of_le outside (old id written)
      rw [later.element? (Nat.lt_of_not_le isNew) apart] at found
      exact earlier.fresh outside found

theorem mono {larger : Scope} {more : Element → Prop} (grows : Grows scope added before after)
    (written : ∀ id, scope.written id → larger.written id)
    (given : ∀ id, scope.given id → larger.given id)
    (allowed : ∀ element, added element → more element) : Grows larger more before after where
  forest := grows.forest
  size_le := grows.size_le
  parent? := grows.parent?
  children inside apart := grows.children inside fun member => apart (given _ member)
  kind? := grows.kind?
  element? inside apart := grows.element? inside fun member => apart (written _ member)
  fresh outside found := allowed _ (grows.fresh outside found)

/-- More elements may be added. -/
theorem adding {more : Element → Prop} (grows : Grows scope added before after)
    (allowed : ∀ element, added element → more element) : Grows scope more before after :=
  grows.mono (fun _ written => written) (fun _ given => given) allowed

/-! ## What growth keeps -/

section Kept

variable (grows : Grows scope added before after)
include grows

theorem below_of_below {ancestor : NodeId} (below : before.Below id ancestor) :
    after.Below id ancestor := by
  refine Relation.TransGen.mono (fun child parent link => ?_) _ _ below
  rw [grows.parent? (lt_size_of_parent? link)]
  exact link

/-- Ways upwards from earlier nodes are the earlier ones. -/
theorem below_iff (forest : before.Forest) {ancestor : NodeId} (inside : id < before.size) :
    after.Below id ancestor ↔ before.Below id ancestor := by
  refine ⟨fun below => ?_, grows.below_of_below⟩
  induction forest.rooted id with
  | top parentless =>
      rw [← grows.parent? inside] at parentless
      exact absurd below (not_below_of_parentless parentless)
  | @under id parent link _ ih =>
      have stays : after.parent? id = some parent := by rwa [grows.parent? inside]
      rw [below_iff_of_parent? stays] at below
      rw [below_iff_of_parent? link]
      exact below.imp_right (ih (forest.parent_lt link))

theorem exists_extends (inside : id < before.size) :
    ∃ kind next, before.kind? id = some kind ∧ after.kind? id = some next ∧
      kind.Extends next := by
  obtain ⟨node, found⟩ := before.node?_eq_some_of_lt inside
  have known : before.kind? id = some node.kind := by simp [Tree.kind?, found]
  obtain ⟨next, later, extended⟩ := grows.kind? known
  exact ⟨node.kind, next, known, later, extended⟩

theorem tag? (inside : id < before.size) : after.tag? id = before.tag? id := by
  obtain ⟨kind, next, known, later, extended⟩ := grows.exists_extends inside
  simp only [Tree.tag?, Tree.element?, known, later]
  cases extended with
  | same => rfl
  | text => rfl
  | attributes => rfl

theorem element?_isSome (inside : id < before.size) :
    (after.element? id).isSome = (before.element? id).isSome := by
  simpa [Tree.tag?] using congrArg Option.isSome (grows.tag? inside)

theorem isTagged (inside : id < before.size) (tag : String) :
    after.isTagged id tag = before.isTagged id tag :=
  isTagged_congr (grows.tag? inside) tag

/-- Data of a text is kept, perhaps with more data after it. -/
theorem text? {data : String} (found : before.text? id = some data) :
    ∃ more, after.text? id = some (data ++ more) := by
  obtain ⟨next, later, extended⟩ := grows.kind? (text?_eq_some_iff.mp found)
  cases extended with
  | same => exact ⟨"", by simp [Tree.text?, later]⟩
  | text _ more => exact ⟨more, by simp [Tree.text?, later]⟩

theorem isStyleMarked (inside : id < before.size) (apart : ¬ scope.written id) (marker : String) :
    after.isStyleMarked id marker = before.isStyleMarked id marker := by
  simp only [Tree.isStyleMarked, grows.isTagged inside, Tree.hasAttribute,
    grows.element? inside apart]

/-- The html element of a document stays where it is. -/
theorem html? (forest : before.Forest) {html : NodeId} (found : before.html? = some html)
    (rootApart : ¬ scope.given root) : after.html? = some html := by
  have link := forest.parent?_of_html? found
  rw [← found]
  refine html?_congr (grows.children (forest.parent_lt link) rootApart) ?_
  exact fun child member => grows.tag? (forest.child_lt member)

/-- The head of a document stays where it is, or stays away. -/
theorem head? (forest : before.Forest) {html : NodeId} (found : before.html? = some html)
    (rootApart : ¬ scope.given root) (htmlApart : ¬ scope.given html) :
    after.head? = before.head? := by
  have inside := lt_size_of_parent? (forest.parent?_of_html? found)
  refine htmlChild?_congr found (grows.html? forest found rootApart)
    (grows.children inside htmlApart) ?_ "head"
  exact fun child member => grows.tag? (forest.child_lt member)

end Kept

/-! ## Steps of growth -/

section Steps

variable (grows : Grows scope added before middle)
include grows

theorem create {kind : NodeKind} (allowed : kind.Allowed added) :
    Grows scope added before (middle.create kind).2 where
  forest := grows.forest.congr (SameLinks.create middle kind)
  size_le := Nat.le_trans grows.size_le (Nat.le_of_lt (lt_size_create kind))
  parent? inside := by rw [parent?_create]; exact grows.parent? inside
  children inside apart := by rw [children_create]; exact grows.children inside apart
  kind? found := by
    obtain ⟨next, later, extended⟩ := grows.kind? found
    exact ⟨next, by rw [kind?_create, if_neg (Nat.ne_of_lt (lt_size_of_kind? later)), later],
      extended⟩
  element? {id} inside apart := by
    rw [← grows.element? inside apart]
    refine element?_congr ?_
    rw [kind?_create, if_neg (Nat.ne_of_lt (Nat.lt_of_lt_of_le inside grows.size_le))]
  fresh {id element} outside found := by
    rw [element?_eq_some_iff, kind?_create] at found
    split at found
    next =>
      cases found
      exact allowed
    next => exact grows.fresh outside (element?_eq_some_iff.mpr found)

theorem place {parent child : NodeId} {arrange : List NodeId → List NodeId}
    (forest : before.Forest) (isNew : before.size ≤ child)
    (receives : parent < before.size → scope.given parent)
    (may : middle.mayPlace parent child = true)
    (permuted : ∀ list, (arrange list).Perm (child :: list))
    (placed : Placed middle after parent child arrange) :
    Grows scope added before after where
  forest := placed.forest grows.forest may permuted
  size_le := by rw [placed.size]; exact grows.size_le
  parent? {id} inside := by
    rw [placed.parent?, if_neg (Nat.ne_of_lt (Nat.lt_of_lt_of_le inside isNew))]
    exact grows.parent? inside
  children {id} inside apart := by
    have elsewhere : id ≠ parent := by
      rintro rfl
      exact apart (receives inside)
    rw [placed.children, if_neg elsewhere, grows.children inside apart]
    -- An added node is in no list of the start.
    exact forest.filter_children (by simp [parent?_of_size_le isNew])
  kind? found := by
    obtain ⟨next, later, extended⟩ := grows.kind? found
    exact ⟨next, by rw [placed.kind?, later], extended⟩
  element? inside apart := by
    rw [element?_congr (placed.kind? _)]
    exact grows.element? inside apart
  fresh outside found := by
    rw [element?_congr (placed.kind? _)] at found
    exact grows.fresh outside found

theorem relabel (change : Attributes → Attributes) (inside : id < before.size)
    (written : scope.written id) :
    Grows scope added before (middle.modifyAttributes id change) where
  forest := grows.forest.congr (SameLinks.modifyAttributes middle id change)
  size_le := by rw [size_modifyAttributes]; exact grows.size_le
  parent? within := by
    rw [(SameLinks.modifyAttributes middle id change).parent?]
    exact grows.parent? within
  children within apart := by
    rw [(SameLinks.modifyAttributes middle id change).children]
    exact grows.children within apart
  kind? {other kind} found := by
    obtain ⟨next, later, extended⟩ := grows.kind? found
    by_cases same : other = id
    · subst same
      refine ⟨next.withAttributes change, ?_, extended.trans (.withAttributes change next)⟩
      rw [kind?_modifyAttributes, if_pos rfl, later, Option.map_some]
    · exact ⟨next, by rw [kind?_modifyAttributes_of_ne change same, later], extended⟩
  element? {other} within apart := by
    have elsewhere : other ≠ id := by
      rintro rfl
      exact apart written
    rw [element?_modifyAttributes, if_neg elsewhere]
    exact grows.element? within apart
  fresh {other element} outside found := by
    rw [element?_modifyAttributes, if_neg (Nat.ne_of_gt (Nat.lt_of_lt_of_le inside outside))]
      at found
    exact grows.fresh outside found

/-- A node that was added comes below a parent that may receive children. -/
theorem attach {parent child : NodeId} (forest : before.Forest) (isNew : before.size ≤ child)
    (receives : parent < before.size → scope.given parent)
    (attached : Attached middle parent child after) : Grows scope added before after := by
  cases attached with
  | refused => exact grows
  | placed may permuted placed => exact grows.place forest isNew receives may permuted placed

theorem setAttribute (name value : String) (inside : id < before.size)
    (written : scope.written id) :
    Grows scope added before (middle.setAttribute id name value) :=
  grows.relabel _ inside written

theorem eraseAttribute (name : String) (inside : id < before.size) (written : scope.written id) :
    Grows scope added before (middle.eraseAttribute id name) :=
  grows.relabel _ inside written

/-- Data is added at the end of a text. -/
theorem lengthen {data : String} (more : String) (found : middle.text? id = some data) :
    Grows scope added before (middle.modify id (Node.withText (data ++ more))) where
  forest := grows.forest.congr (SameLinks.withText middle id _)
  size_le := by rw [size_modify]; exact grows.size_le
  parent? within := by
    rw [(SameLinks.withText middle id _).parent?]
    exact grows.parent? within
  children within apart := by
    rw [(SameLinks.withText middle id _).children]
    exact grows.children within apart
  kind? {other kind} known := by
    obtain ⟨next, later, extended⟩ := grows.kind? known
    by_cases same : other = id
    · subst same
      rw [text?_eq_some_iff.mp found] at later
      cases later
      exact ⟨_, kind?_lengthen found more, extended.trans (.text data more)⟩
    · exact ⟨next, by rw [kind?_modify, if_neg same, later], extended⟩
  element? {other} within apart := by
    rw [← grows.element? within apart]
    exact element?_lengthen found more
  fresh {other element} outside known := by
    rw [element?_lengthen found more] at known
    exact grows.fresh outside known

/-- The counters are no part of what growth speaks of. -/
theorem of_nodes (same : after.nodes = middle.nodes) : Grows scope added before after := by
  have kinds : ∀ id, after.kind? id = middle.kind? id := fun id => by
    simp only [Tree.kind?, node?, same]
  have links := SameLinks.of_nodes same
  refine ⟨grows.forest.congr links, ?_, fun within => ?_, fun within apart => ?_, fun known => ?_,
    fun within apart => ?_, fun outside known => ?_⟩
  · have sizes : after.size = middle.size := congrArg Array.size same
    rw [sizes]
    exact grows.size_le
  · rw [links.parent?, grows.parent? within]
  · rw [links.children, grows.children within apart]
  · rw [kinds]
    exact grows.kind? known
  · rw [element?_congr (kinds _), grows.element? within apart]
  · rw [element?_congr (kinds _)] at known
    exact grows.fresh outside known

end Steps

end Grows

/-- A tree has grown, and a node that was added to it is at hand. -/
structure Creates (scope : Scope) (added : Element → Prop) (before : Tree)
    (created : NodeId × Tree) : Prop where
  grows : Grows scope added before created.2
  isNew : before.size ≤ created.1
  inside : created.1 < created.2.size

theorem Grows.createElement {scope : Scope} {added : Element → Prop} {before middle : Tree}
    (grows : Grows scope added before middle) {tag : String}
    {pairs : List (String × String)}
    (allowed : added (Element.ofPairs tag pairs)) :
    Creates scope added before (middle.createElement tag pairs) where
  grows := grows.create allowed
  isNew := grows.size_le
  inside := lt_size_create _

/-! ## A new node below a node of the store -/

section Below

variable {scope : Scope} {added : Element → Prop} {tree : Tree} {id : NodeId}

theorem Forest.mayPlace_of_childless {parent child : NodeId} (forest : tree.Forest)
    (different : parent ≠ child) (childless : tree.children child = []) :
    tree.mayPlace parent child = true :=
  forest.mayPlace_iff.mpr ⟨different, forest.not_below_of_childless childless⟩

/-- Appending a new node is never refused. -/
theorem Forest.append?_create (forest : tree.Forest) (inside : id < tree.size) (kind : NodeKind) :
    ∃ after, (tree.create kind).2.append? id tree.size = some after ∧
      (tree.create kind).2.mayPlace id tree.size = true ∧
      Placed (tree.create kind).2 after id tree.size (· ++ [tree.size]) := by
  have created := forest.congr (SameLinks.create tree kind)
  have may : (tree.create kind).2.mayPlace id tree.size = true := by
    refine created.mayPlace_of_childless (Nat.ne_of_lt inside) ?_
    rw [children_create, children_of_size_le (Nat.le_refl _)]
  obtain ⟨after, done, placed⟩ := created.place?_spec
    (lt_size_create_of_lt kind inside) (lt_size_create kind) may (· ++ [tree.size])
  exact ⟨after, done, may, placed⟩

theorem Grows.append_create (forest : tree.Forest) (inside : id < tree.size)
    (receives : scope.given id) {kind : NodeKind} (allowed : kind.Allowed added) :
    Grows scope added tree ((tree.create kind).2.append id tree.size) := by
  obtain ⟨after, done, may, placed⟩ := forest.append?_create inside kind
  rw [Tree.append, done]
  exact ((Grows.refl forest).create allowed).attach forest (Nat.le_refl _) (fun _ => receives)
    (.placed may (perm_append_child _) placed)

theorem Forest.parent?_append_create (forest : tree.Forest) (inside : id < tree.size)
    (kind : NodeKind) :
    ((tree.create kind).2.append id tree.size).parent? tree.size = some id := by
  obtain ⟨after, done, -, placed⟩ := forest.append?_create inside kind
  rw [Tree.append, done, Option.getD_some, placed.parent?, if_pos rfl]

theorem Forest.kind?_append_create (forest : tree.Forest) (inside : id < tree.size)
    (kind : NodeKind) :
    ((tree.create kind).2.append id tree.size).kind? tree.size = some kind := by
  obtain ⟨after, done, -, placed⟩ := forest.append?_create inside kind
  rw [Tree.append, done, Option.getD_some, placed.kind?, kind?_create, if_pos rfl]

/-! ## Text at the end of a node -/

/-- Some text below a node, as its child, contains the given text. -/
def HoldsText (tree : Tree) (id : NodeId) (addition : String) : Prop :=
  ∃ text data, tree.parent? text = some id ∧ tree.text? text = some data ∧
    addition.toList <:+: data.toList

/-- What a child holds stays while the tree grows. -/
theorem HoldsText.grows {after : Tree} {addition : String} (holds : tree.HoldsText id addition)
    (grows : Grows scope added tree after) : after.HoldsText id addition := by
  obtain ⟨text, data, link, found, infix_data⟩ := holds
  obtain ⟨more, later⟩ := grows.text? found
  refine ⟨text, data ++ more, ?_, later, ?_⟩
  · rw [grows.parent? (lt_size_of_parent? link), link]
  · rw [String.toList_append]
    exact infix_data.trans (List.prefix_append _ _).isInfix

/-- Adding text to a node of the store. -/
theorem Forest.appendText_spec (forest : tree.Forest) (inside : id < tree.size)
    (receives : scope.given id) (addition : String) :
    Grows scope added tree (tree.appendText id addition) ∧
      (tree.appendText id addition).HoldsText id addition := by
  have created : appendText?.appendNewText tree id addition =
      some ((tree.create (.text addition)).2.append id tree.size) := by
    obtain ⟨after, done, -⟩ := forest.append?_create inside (.text addition)
    rw [Tree.append, done]
    exact done
  have new : Grows scope added tree ((tree.create (.text addition)).2.append id tree.size) ∧
      ((tree.create (.text addition)).2.append id tree.size).HoldsText id addition := by
    refine ⟨.append_create forest inside receives trivial, tree.size, addition, ?_, ?_, ?_⟩
    · exact forest.parent?_append_create inside _
    · exact text?_eq_some_iff.mpr (forest.kind?_append_create inside _)
    · exact List.infix_refl _
  unfold appendText Tree.appendText?
  split
  next last isLast =>
    split
    next data found =>
      refine ⟨(Grows.refl forest).lengthen addition found, last, data ++ addition, ?_, ?_, ?_⟩
      · show (tree.modify last (Node.withText (data ++ addition))).parent? last = some id
        rw [(SameLinks.withText tree last _).parent?]
        exact forest.mem_children_iff.mp (List.mem_of_getLast? isLast)
      · exact text?_eq_some_iff.mpr (kind?_lengthen found addition)
      · rw [String.toList_append]
        exact (List.suffix_append _ _).isInfix
    next => rw [created]; exact new
  next => rw [created]; exact new

end Below

end Tree

end FirstPaint
