import FirstPaint.Document.Traversal

/-!
# Moving nodes

Attaching, detaching and moving nodes. A node that is attached somewhere is
detached before it is attached again. A node is never placed below itself: such
a request leaves the tree as it is.

An operation whose name ends in a question mark has no result when it would
write to a node outside the store. The operation of the same name without the
mark leaves the tree unchanged in that case.
-/

set_option autoImplicit false

namespace FirstPaint

namespace Tree

/-- Takes a node away from its parent. -/
def detach? (tree : Tree) (id : NodeId) : Option Tree := do
  let node ← tree.node? id
  match node.parent? with
  | none => return tree
  | some parent =>
    let orphaned ← tree.modify? id ({ · with parent? := none })
    orphaned.modify? parent fun node =>
      { node with children := node.children.filter (· != id) }

/-- A node may be placed below a parent unless it is that parent or one of the
ancestors of that parent. -/
def mayPlace (tree : Tree) (parent child : NodeId) : Bool :=
  parent != child && !tree.isDescendant parent child

/-- Detaches a node and links it to a parent whose new list of children is
computed from the one left after detaching. -/
def place? (tree : Tree) (parent child : NodeId)
    (arrange : List NodeId → List NodeId) : Option Tree :=
  if tree.mayPlace parent child then do
    -- The list is arranged after detaching, so a child that moves within its
    -- parent is not counted at its old place.
    let detached ← tree.detach? child
    let listed ← detached.modify? parent fun node =>
      { node with children := arrange node.children }
    listed.modify? child ({ · with parent? := some parent })
  else
    some tree

/-- Makes a node the last child of a parent. -/
def append? (tree : Tree) (parent child : NodeId) : Option Tree :=
  tree.place? parent child (· ++ [child])

/-- A list with a new member right before a reference, or at the end if the
reference is not in the list. -/
def listedBefore (reference member : NodeId) (list : List NodeId) : List NodeId :=
  match list.idxOf? reference with
  | some place => list.insertIdx place member
  | none => list ++ [member]

/-- Makes a node the child of a parent right before a reference child, or the
last child if there is no such reference. The reference is looked up after the
node has been detached. -/
def insertBefore? (tree : Tree) (parent child reference : NodeId) : Option Tree :=
  tree.place? parent child (listedBefore reference child)

/-- Places a node before the child that is first at the time of the call. -/
def prepend? (tree : Tree) (parent child : NodeId) : Option Tree :=
  match tree.firstChild? parent with
  | some first => tree.insertBefore? parent child first
  | none => tree.append? parent child

/-- Detaches a child from its parent; any other node stays where it is. -/
def removeChild (tree : Tree) (parent child : NodeId) : Tree :=
  if tree.parent? child = some parent then (tree.detach? child).getD tree else tree

/-- Detaches all children of a node. -/
def releaseChildren? (tree : Tree) (id : NodeId) : Option Tree := do
  let released ← tree.modify? id ({ · with children := [] })
  (tree.children id).foldlM (fun tree child => tree.modify? child ({ · with parent? := none }))
    released

/-- Detaches all children of a node and hands them over in their order. -/
def takeChildren? (tree : Tree) (id : NodeId) : Option (List NodeId × Tree) := do
  let released ← tree.releaseChildren? id
  return (tree.children id, released)

/-- Detaches all children of one node and appends them to another in their
order. A child that may not be placed there stays detached. -/
def moveChildren? (tree : Tree) (source target : NodeId) : Option Tree := do
  let released ← tree.releaseChildren? source
  (tree.children source).foldlM (fun tree child => tree.append? target child) released

/-- Adds text at the end of a node: to its last child if that is a text node,
else as a new text node. -/
def appendText? (tree : Tree) (id : NodeId) (addition : String) : Option Tree :=
  match tree.lastChild? id with
  | some last =>
    match tree.text? last with
    | some data => some (tree.modify last ({ · with kind := .text (data ++ addition) }))
    | none => appendNewText
  | none => appendNewText
where
  /-- Creates a text node and appends it. -/
  appendNewText : Option Tree :=
    let (text, created) := tree.create (.text addition)
    created.append? id text

/-! ## Edits within the store -/

/-- Takes a node away from its parent. -/
def detach (tree : Tree) (id : NodeId) : Tree := (tree.detach? id).getD tree

/-- Makes a node the last child of a parent. -/
def append (tree : Tree) (parent child : NodeId) : Tree :=
  (tree.append? parent child).getD tree

/-- Places a node before the first child of a parent. -/
def prepend (tree : Tree) (parent child : NodeId) : Tree :=
  (tree.prepend? parent child).getD tree

/-- Detaches all children of a node. -/
def releaseChildren (tree : Tree) (id : NodeId) : Tree :=
  (tree.releaseChildren? id).getD tree

/-- Adds text at the end of a node. -/
def appendText (tree : Tree) (id : NodeId) (addition : String) : Tree :=
  (tree.appendText? id addition).getD tree

end Tree

end FirstPaint
