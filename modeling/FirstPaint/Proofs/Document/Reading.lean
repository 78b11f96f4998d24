import FirstPaint.Document.Editing
import FirstPaint.Document.Lookup
import Mathlib.Data.List.Find

/-!
# What an edit does to what is read

A tree is read through four functions: the node of a name, its kind, its parent
and its children. Every edit is made of changes of single nodes and of new nodes
at the end of the store. The equations below say what each of these steps does to
each reading; later modules read trees only through them.

A change of the kind alone leaves every link as it is (`SameLinks`).
-/

set_option autoImplicit false

namespace FirstPaint

/-- A node under another parent. -/
def Node.withParent (parent? : Option NodeId) (node : Node) : Node :=
  { node with parent? := parent? }

/-- A node with its list of children arranged anew. -/
def Node.withChildren (arrange : List NodeId → List NodeId) (node : Node) :
    Node :=
  { node with children := arrange node.children }

/-- A node that is a text with the given data. -/
def Node.withText (data : String) (node : Node) : Node := { node with kind := .text data }

/-- What a node is after a change of attributes; only an element has any. -/
def NodeKind.withAttributes (change : Attributes → Attributes) : NodeKind → NodeKind
  | .element holder => .element { holder with attributes := change holder.attributes }
  | other => other

namespace Tree

variable (tree : Tree) (id other : NodeId)

/-! ## The store -/

theorem node?_eq_none_iff : tree.node? id = none ↔ tree.size ≤ id := by
  simp [node?, size]

theorem node?_eq_some_of_lt {id : NodeId} (inside : id < tree.size) :
    ∃ node, tree.node? id = some node :=
  ⟨tree.nodes[id], by simp [node?, Array.getElem?_eq_getElem inside]⟩

variable {tree id other}

theorem lt_size_of_node? {node : Node} (found : tree.node? id = some node) : id < tree.size := by
  refine Nat.lt_of_not_le fun outside => ?_
  rw [(tree.node?_eq_none_iff id).mpr outside] at found
  exact absurd found (by simp)

/-- A node with a parent is in the store. -/
theorem lt_size_of_parent? {parent : NodeId} (below : tree.parent? id = some parent) :
    id < tree.size := by
  obtain ⟨node, found, -⟩ := Option.bind_eq_some_iff.mp below
  exact lt_size_of_node? found

/-- A node with a child is in the store. -/
theorem lt_size_of_mem_children {child : NodeId} (member : child ∈ tree.children id) :
    id < tree.size := by
  cases found : tree.node? id with
  | none => simp [children, found] at member
  | some node => exact lt_size_of_node? found

theorem lt_size_of_kind? {kind : NodeKind} (found : tree.kind? id = some kind) :
    id < tree.size := by
  obtain ⟨node, found, -⟩ := Option.map_eq_some_iff.mp found
  exact lt_size_of_node? found

theorem lt_size_of_element? {element : Element} (found : tree.element? id = some element) :
    id < tree.size := by
  unfold element? at found
  split at found
  next known => exact lt_size_of_kind? known
  next => exact absurd found (by simp)

theorem parent?_of_size_le (outside : tree.size ≤ id) : tree.parent? id = none := by
  simp [parent?, (tree.node?_eq_none_iff id).mpr outside]

theorem children_of_size_le (outside : tree.size ≤ id) : tree.children id = [] := by
  simp [children, (tree.node?_eq_none_iff id).mpr outside]

theorem kind?_of_size_le (outside : tree.size ≤ id) : tree.kind? id = none := by
  simp [kind?, (tree.node?_eq_none_iff id).mpr outside]

/-! ## Readings that depend on the kind alone -/

theorem element?_congr {after : Tree} (same : after.kind? id = tree.kind? id) :
    after.element? id = tree.element? id := by
  simp only [element?, same]

theorem tag?_congr {after : Tree} (same : after.kind? id = tree.kind? id) :
    after.tag? id = tree.tag? id := by
  simp only [tag?, element?_congr same]

theorem text?_congr {after : Tree} (same : after.kind? id = tree.kind? id) :
    after.text? id = tree.text? id := by
  simp only [text?, same]

theorem isSome_element?_of_isTagged {tag : String}
    (tagged : tree.isTagged id tag = true) : (tree.element? id).isSome = true := by
  cases found : tree.element? id with
  | none => simp [isTagged, tag?, found] at tagged
  | some element => rfl

theorem lt_size_of_isTagged {tag : String} (tagged : tree.isTagged id tag = true) :
    id < tree.size := by
  obtain ⟨element, found⟩ := Option.isSome_iff_exists.mp (isSome_element?_of_isTagged tagged)
  exact lt_size_of_element? found

/-- A node has one tag. -/
theorem isTagged_eq_false_of_isTagged {tag other : String} (tagged : tree.isTagged id tag = true)
    (different : Ascii.lower other ≠ Ascii.lower tag) : tree.isTagged id other = false := by
  unfold isTagged at tagged ⊢
  cases found : tree.tag? id with
  | none => rfl
  | some present =>
      rw [found, Option.any_some, Ascii.sameName, beq_iff_eq] at tagged
      rw [Option.any_some, Ascii.sameName, beq_eq_false_iff_ne, tagged]
      exact fun same => different same.symm

theorem isTagged_congr {after : Tree} (same : after.tag? id = tree.tag? id) (tag : String) :
    after.isTagged id tag = tree.isTagged id tag := by
  simp only [isTagged, same]

theorem hasAttribute_congr {after : Tree} (same : after.kind? id = tree.kind? id)
    (name : String) : after.hasAttribute id name = tree.hasAttribute id name := by
  simp only [hasAttribute, element?_congr same]

theorem html?_eq_some_iff {html : NodeId} : tree.html? = some html ↔
    tree.documentElement? = some html ∧ tree.isTagged html "html" = true :=
  Option.filter_eq_some_iff

theorem isTagged_of_head? {head : NodeId} (found : tree.head? = some head) :
    tree.isTagged head "head" = true := by
  obtain ⟨_, -, first⟩ := Option.bind_eq_some_iff.mp found
  simpa using List.find?_some first

theorem ne_of_head? {head : NodeId} (found : tree.head? = some head)
    (noHead : tree.isTagged id "head" = false) : id ≠ head := by
  rintro rfl
  rw [isTagged_of_head? found] at noHead
  exact absurd noHead (by simp)

/-- The html element depends on the children of the document and on their tags. -/
theorem html?_congr {after : Tree} (same : after.children root = tree.children root)
    (tags : ∀ child ∈ tree.children root, after.tag? child = tree.tag? child) :
    after.html? = tree.html? := by
  have first : after.documentElement? = tree.documentElement? := by
    unfold documentElement?
    rw [same]
    refine List.find?_congr fun child member => ?_
    simpa [tag?] using congrArg Option.isSome (tags child member)
  rw [html?, html?, first]
  cases found : tree.documentElement? with
  | none => rfl
  | some html =>
      have member := List.mem_of_find?_eq_some found
      simp only [Option.filter_some, isTagged_congr (tags html member)]

/-- A part of the html element depends on its children and on their tags. -/
theorem htmlChild?_congr {after : Tree} {html : NodeId} (found : tree.html? = some html)
    (stays : after.html? = some html) (same : after.children html = tree.children html)
    (tags : ∀ child ∈ tree.children html, after.tag? child = tree.tag? child) (tag : String) :
    after.htmlChild? tag = tree.htmlChild? tag := by
  simp only [htmlChild?, found, stays, Option.bind_eq_bind, Option.bind_some, same]
  exact List.find?_congr fun child member => isTagged_congr (tags child member) tag

theorem element?_eq_some_iff {element : Element} :
    tree.element? id = some element ↔ tree.kind? id = some (.element element) := by
  unfold element?
  split
  next found known => simp [known]
  next none => simpa using fun known => none element known

theorem text?_eq_some_iff {data : String} :
    tree.text? id = some data ↔ tree.kind? id = some (.text data) := by
  unfold text?
  split
  next found known => simp [known]
  next none => simpa using fun known => none data known

theorem isSome_tag?_of_element? {element : Element} (found : tree.element? id = some element) :
    (tree.tag? id).isSome = true := by
  rw [tag?, found, Option.map_some, Option.isSome_some]

theorem isSome_tag?_of_isTagged {tag : String} (tagged : tree.isTagged id tag = true) :
    (tree.tag? id).isSome = true := by
  obtain ⟨_, found⟩ := Option.isSome_iff_exists.mp (isSome_element?_of_isTagged tagged)
  exact isSome_tag?_of_element? found

/-- An element is no text. -/
theorem text?_of_tag? (tagged : (tree.tag? id).isSome = true) : tree.text? id = none := by
  rw [tag?, Option.isSome_map] at tagged
  obtain ⟨element, found⟩ := Option.isSome_iff_exists.mp tagged
  rw [text?, element?_eq_some_iff.mp found]

/-! ## Changing one node -/

@[simp]
theorem size_modify (change : Node → Node) : (tree.modify id change).size = tree.size := by
  simp [modify, size]

theorem node?_modify (change : Node → Node) :
    (tree.modify id change).node? other =
      if other = id then (tree.node? id).map change else tree.node? other := by
  unfold modify node?
  rw [Array.getElem?_modify]
  by_cases same : id = other
  · subst same
    simp
  · simp [same, Ne.symm same]

/-- A change of a node of the store has a result. -/
theorem modify?_eq_some (change : Node → Node) (inside : id < tree.size) :
    tree.modify? id change = some (tree.modify id change) := by
  simp [modify?, modify, inside]

theorem kind?_modify (change : Node → Node) :
    (tree.modify id change).kind? other =
      if other = id then (tree.node? id).map fun node => (change node).kind
      else tree.kind? other := by
  unfold kind?
  rw [node?_modify]
  split
  next => rw [Option.map_map]; rfl
  next => rfl

theorem parent?_modify (change : Node → Node) :
    (tree.modify id change).parent? other =
      if other = id then (tree.node? id).bind fun node => (change node).parent?
      else tree.parent? other := by
  unfold parent?
  rw [node?_modify]
  split
  next => rw [Option.bind_map]; rfl
  next => rfl

theorem children_modify (change : Node → Node) :
    (tree.modify id change).children other =
      if other = id then ((tree.node? id).map fun node => (change node).children).getD []
      else tree.children other := by
  unfold children
  rw [node?_modify]
  split
  next => rw [Option.map_map]; rfl
  next => rfl

section Kept

variable {change : Node → Node}

theorem kind?_modify_of_kept (kept : ∀ node, (change node).kind = node.kind) :
    (tree.modify id change).kind? other = tree.kind? other := by
  rw [kind?_modify]
  split
  next same =>
    subst same
    simp only [kept]
    rfl
  next => rfl

theorem parent?_modify_of_kept (kept : ∀ node, (change node).parent? = node.parent?) :
    (tree.modify id change).parent? other = tree.parent? other := by
  rw [parent?_modify]
  split
  next same =>
    subst same
    simp only [kept]
    rfl
  next => rfl

theorem children_modify_of_kept (kept : ∀ node, (change node).children = node.children) :
    (tree.modify id change).children other = tree.children other := by
  rw [children_modify]
  split
  next same =>
    subst same
    simp only [kept]
    rfl
  next => rfl

end Kept

/-! ## Changing one link of a node -/

section Links

variable (parent? : Option NodeId) (arrange : List NodeId → List NodeId)

@[simp]
theorem kind?_withParent :
    (tree.modify id (Node.withParent parent?)).kind? other = tree.kind? other :=
  kind?_modify_of_kept fun _ => rfl

theorem parent?_withParent (inside : id < tree.size) :
    (tree.modify id (Node.withParent parent?)).parent? other =
      if other = id then parent? else tree.parent? other := by
  obtain ⟨node, found⟩ := tree.node?_eq_some_of_lt inside
  rw [parent?_modify, found]
  rfl

@[simp]
theorem children_withParent :
    (tree.modify id (Node.withParent parent?)).children other = tree.children other :=
  children_modify_of_kept fun _ => rfl

@[simp]
theorem kind?_withChildren :
    (tree.modify id (Node.withChildren arrange)).kind? other = tree.kind? other :=
  kind?_modify_of_kept fun _ => rfl

@[simp]
theorem parent?_withChildren :
    (tree.modify id (Node.withChildren arrange)).parent? other = tree.parent? other :=
  parent?_modify_of_kept fun _ => rfl

theorem children_withChildren (inside : id < tree.size) :
    (tree.modify id (Node.withChildren arrange)).children other =
      if other = id then arrange (tree.children id) else tree.children other := by
  obtain ⟨node, found⟩ := tree.node?_eq_some_of_lt inside
  rw [children_modify, found]
  simp only [Tree.children, found]
  rfl

end Links

/-! ## A new node -/

section Create

variable (kind : NodeKind)

@[simp]
theorem size_create : (tree.create kind).2.size = tree.size + 1 := by
  simp [create, size]

theorem lt_size_create : tree.size < (tree.create kind).2.size := by
  rw [size_create]
  exact Nat.lt_succ_self _

theorem lt_size_create_of_lt (inside : id < tree.size) : id < (tree.create kind).2.size :=
  Nat.lt_trans inside (lt_size_create kind)

theorem node?_create :
    (tree.create kind).2.node? other =
      if other = tree.size then some ⟨kind, none, []⟩ else tree.node? other := by
  simp only [create, node?, size, Array.getElem?_push]
  rfl

theorem kind?_create :
    (tree.create kind).2.kind? other =
      if other = tree.size then some kind else tree.kind? other := by
  unfold kind?
  rw [node?_create]
  split <;> rfl

/-- A new node has no parent, and no other link changes. -/
@[simp]
theorem parent?_create : (tree.create kind).2.parent? other = tree.parent? other := by
  by_cases fresh : other = tree.size
  · rw [parent?_of_size_le (Nat.le_of_eq fresh.symm)]
    simp [parent?, node?_create, fresh]
  · simp [parent?, node?_create, fresh]

@[simp]
theorem children_create : (tree.create kind).2.children other = tree.children other := by
  by_cases fresh : other = tree.size
  · rw [children_of_size_le (Nat.le_of_eq fresh.symm)]
    simp [children, node?_create, fresh]
  · simp [children, node?_create, fresh]

end Create

/-! ## Longer text -/

section Lengthen

variable {data : String} (found : tree.text? id = some data) (more : String)
include found

theorem kind?_lengthen :
    (tree.modify id (Node.withText (data ++ more))).kind? id =
      some (.text (data ++ more)) := by
  obtain ⟨node, known, -⟩ := Option.map_eq_some_iff.mp (text?_eq_some_iff.mp found)
  rw [kind?_modify, if_pos rfl, known]
  rfl

theorem element?_lengthen :
    (tree.modify id (Node.withText (data ++ more))).element? other =
      tree.element? other := by
  by_cases same : other = id
  · subst same
    simp only [element?, kind?_lengthen found more, text?_eq_some_iff.mp found]
  · exact element?_congr (by rw [kind?_modify, if_neg same])

end Lengthen

/-! ## Trees that read the same -/

/-- A node is determined by what is read of it. -/
theorem node?_congr {after : Tree} (kind : after.kind? id = tree.kind? id)
    (parent : after.parent? id = tree.parent? id)
    (children : after.children id = tree.children id) : after.node? id = tree.node? id := by
  unfold kind? at kind
  unfold Tree.parent? at parent
  unfold Tree.children at children
  cases now : after.node? id with
  | none =>
      cases earlier : tree.node? id with
      | none => rfl
      | some node => simp [now, earlier] at kind
  | some node =>
      cases earlier : tree.node? id with
      | none => simp [now, earlier] at kind
      | some other =>
          obtain ⟨_, _, _⟩ := node
          obtain ⟨_, _, _⟩ := other
          simp only [now, earlier, Option.map_some, Option.bind_some, Option.some.injEq,
            Option.getD_some] at kind parent children
          rw [kind, parent, children]

/-! ## Edits that touch no link -/

/-- Two trees with the same parents and the same children of every node. -/
structure SameLinks (before after : Tree) : Prop where
  parent? : ∀ id, after.parent? id = before.parent? id
  children : ∀ id, after.children id = before.children id

namespace SameLinks

theorem refl (tree : Tree) : SameLinks tree tree := ⟨fun _ => rfl, fun _ => rfl⟩

theorem trans {first second third : Tree} (earlier : SameLinks first second)
    (later : SameLinks second third) : SameLinks first third where
  parent? id := (later.parent? id).trans (earlier.parent? id)
  children id := (later.children id).trans (earlier.children id)

/-- What is read of a tree depends on its nodes alone. -/
theorem of_nodes {tree after : Tree} (same : after.nodes = tree.nodes) :
    SameLinks tree after := by
  constructor <;> intro id <;> simp only [Tree.parent?, Tree.children, node?, same]

theorem create (tree : Tree) (kind : NodeKind) : SameLinks tree (tree.create kind).2 :=
  ⟨fun _ => parent?_create kind, fun _ => children_create kind⟩

/-- A change that keeps both links of its node. -/
theorem modify (tree : Tree) (id : NodeId) (change : Node → Node)
    (sameParent : ∀ node, (change node).parent? = node.parent?)
    (sameChildren : ∀ node, (change node).children = node.children) :
    SameLinks tree (tree.modify id change) :=
  ⟨fun _ => parent?_modify_of_kept sameParent, fun _ => children_modify_of_kept sameChildren⟩

theorem withText (tree : Tree) (id : NodeId) (data : String) :
    SameLinks tree (tree.modify id (Node.withText data)) :=
  modify tree id _ (fun _ => rfl) fun _ => rfl

theorem modifyAttributes (tree : Tree) (id : NodeId) (change : Attributes → Attributes) :
    SameLinks tree (tree.modifyAttributes id change) := by
  refine modify tree id _ (fun node => ?_) (fun node => ?_)
  · split <;> rfl
  · split <;> rfl

theorem setAttribute (tree : Tree) (id : NodeId) (name value : String) :
    SameLinks tree (tree.setAttribute id name value) :=
  modifyAttributes tree id _

/-- With the same links, trees differ in what their nodes are at most. -/
theorem nodes_eq {before after : Tree} (same : SameLinks before after)
    (kinds : ∀ id, after.kind? id = before.kind? id) : after.nodes = before.nodes :=
  Array.ext_getElem? fun id => node?_congr (kinds id) (same.parent? id) (same.children id)

end SameLinks

section Attributes

variable (change : Attributes → Attributes)

@[simp]
theorem size_modifyAttributes : (tree.modifyAttributes id change).size = tree.size :=
  size_modify _

theorem kind?_modifyAttributes :
    (tree.modifyAttributes id change).kind? other =
      if other = id then (tree.kind? id).map (NodeKind.withAttributes change)
      else tree.kind? other := by
  unfold modifyAttributes
  rw [kind?_modify]
  split
  next =>
    unfold kind?
    cases tree.node? id with
    | none => rfl
    | some node =>
        obtain ⟨kind, parent?, children⟩ := node
        cases kind <;> rfl
  next => rfl

theorem kind?_modifyAttributes_of_ne (different : other ≠ id) :
    (tree.modifyAttributes id change).kind? other = tree.kind? other := by
  rw [kind?_modifyAttributes, if_neg different]

theorem element?_modifyAttributes :
    (tree.modifyAttributes id change).element? other =
      if other = id then
        (tree.element? id).map fun element =>
          { element with attributes := change element.attributes }
      else tree.element? other := by
  by_cases same : other = id
  · subst same
    simp only [element?, kind?_modifyAttributes, if_true]
    cases tree.kind? other with
    | none => rfl
    | some kind => cases kind <;> rfl
  · rw [if_neg same]
    exact element?_congr (kind?_modifyAttributes_of_ne change same)

end Attributes

/-! ## Single attributes -/

theorem any_insertEntry (entry : Attribute) (list : List Attribute) (name : String) :
    (Attributes.insertEntry entry list).any (·.name == name) =
      (entry.name == name || list.any (·.name == name)) := by
  induction list with
  | nil => simp [Attributes.insertEntry]
  | cons first rest ih =>
      unfold Attributes.insertEntry
      split
      next same => simp [same]
      next => simp [ih, Bool.or_left_comm]

/-- A value that is given makes its name present and no other. -/
theorem contains_insert (attributes : Attributes) (name value other : String) :
    (attributes.insert name value).contains other =
      (Ascii.lower name == Ascii.lower other || attributes.contains other) :=
  any_insertEntry ⟨Ascii.lower name, value⟩ attributes.toList (Ascii.lower other)

theorem hasAttribute_setAttribute (isElement : (tree.element? id).isSome = true)
    (name value other : String) :
    (tree.setAttribute id name value).hasAttribute id other =
      (Ascii.lower name == Ascii.lower other || tree.hasAttribute id other) := by
  obtain ⟨element, found⟩ := Option.isSome_iff_exists.mp isElement
  rw [setAttribute, hasAttribute, hasAttribute, element?_modifyAttributes, if_pos rfl, found]
  exact contains_insert element.attributes name value other

/-! ## What one node keeps -/

/-- A node has the same tag and attributes and the same children in both trees. -/
structure SameAt (before after : Tree) (id : NodeId) : Prop where
  element? : after.element? id = before.element? id
  children : after.children id = before.children id

/-- A node has the same tag and attributes in both trees, and of its children it has lost
those that were dropped. -/
structure LosesAt (before after : Tree) (dropped : List NodeId) (id : NodeId) : Prop where
  element? : after.element? id = before.element? id
  children : after.children id = (before.children id).filter (· ∉ dropped)

/-- Where nothing is to be left out, a list stays. -/
theorem filter_not_mem_nil (list : List NodeId) :
    list.filter (· ∉ ([] : List NodeId)) = list :=
  List.filter_eq_self.mpr (by simp)

section Keeping

variable {first second third : Tree} {dropped : List NodeId}

theorem SameAt.refl (tree : Tree) (id : NodeId) : SameAt tree tree id := ⟨rfl, rfl⟩

theorem SameAt.trans (earlier : SameAt first second id) (later : SameAt second third id) :
    SameAt first third id where
  element? := later.element?.trans earlier.element?
  children := later.children.trans earlier.children

theorem SameAt.tag? (same : SameAt first second id) : second.tag? id = first.tag? id := by
  rw [Tree.tag?, Tree.tag?, same.element?]

theorem SameAt.isTagged (same : SameAt first second id) (tag : String) :
    second.isTagged id tag = first.isTagged id tag :=
  isTagged_congr same.tag? tag

/-- Where nothing was dropped, a node loses nothing. -/
theorem losesAt_nil_iff : LosesAt first second [] id ↔ SameAt first second id := by
  constructor
  · intro loses
    exact ⟨loses.element?, loses.children.trans (filter_not_mem_nil _)⟩
  · intro same
    exact ⟨same.element?, same.children.trans (filter_not_mem_nil _).symm⟩

/-- A node with none of the dropped nodes among its children loses nothing. -/
theorem LosesAt.sameAt (loses : LosesAt first second dropped id)
    (free : ∀ child ∈ first.children id, child ∉ dropped) : SameAt first second id where
  element? := loses.element?
  children := by
    rw [loses.children]
    exact List.filter_eq_self.mpr fun child member => decide_eq_true (free child member)

/-- What is lost after a time without any loss is all that is lost. -/
theorem SameAt.losesAt (same : SameAt first second id) (loses : LosesAt second third dropped id) :
    LosesAt first third dropped id where
  element? := loses.element?.trans same.element?
  children := by rw [loses.children, same.children]

end Keeping

/-! ## Generated names -/

/-- Finding a fresh name writes to the counters only. -/
theorem freshId_nodes (attempts : Nat) (tree : Tree) :
    (freshId attempts tree).2.nodes = tree.nodes := by
  induction attempts generalizing tree with
  | zero => rfl
  | succ attempts ih =>
      simp only [freshId]
      split
      next => exact (ih _).trans rfl
      next => rfl

end Tree

end FirstPaint
