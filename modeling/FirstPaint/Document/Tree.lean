import FirstPaint.Document.Element

/-!
# Document trees

A document is kept as a growing store of nodes. A node is named by its position
in the store, keeps that name for good, and records its parent and its children
by name. The document itself is the node at position zero. Nodes are never
dropped: a node without a parent is detached and can be attached again.

Reading a node outside the store finds nothing. Writing to one is an error of
the caller, so each operation that writes returns an optional tree; the empty
answer means that a node outside the store would have been written.
-/

set_option autoImplicit false

namespace FirstPaint

/-- The name of a node: its position in the store. -/
abbrev NodeId := Nat

/-- What a node is. -/
inductive NodeKind where
  /-- A whole document. -/
  | document
  /-- An element with its tag and attributes. -/
  | element (element : Element)
  /-- Character data. -/
  | text (data : String)
  /-- A comment. -/
  | comment (data : String)
  /-- Character data in a marked section. -/
  | cdata (data : String)
deriving DecidableEq, Repr

/-- A node with its links. -/
structure Node where
  /-- What the node is. -/
  kind : NodeKind
  /-- The parent, unless the node is detached. -/
  parent? : Option NodeId := none
  /-- The children in order. -/
  children : List NodeId := []
deriving DecidableEq, Repr

/-- A document and all nodes ever created for it. -/
structure Tree where
  /-- The nodes by position. -/
  nodes : Array Node
  /-- For each text that generated names start with, the number of the next one. -/
  counters : List (String × Nat) := []
deriving DecidableEq, Repr

namespace Tree

/-- The document node. -/
def root : NodeId := 0

/-- A tree with nothing but the document. -/
def empty : Tree := ⟨#[⟨.document, none, []⟩], []⟩

instance : EmptyCollection Tree := ⟨empty⟩

instance : Inhabited Tree := ⟨empty⟩

/-- The number of nodes ever created. -/
def size (tree : Tree) : Nat := tree.nodes.size

/-! ## Reading one node -/

/-- The node of that name. -/
def node? (tree : Tree) (id : NodeId) : Option Node := tree.nodes[id]?

/-- What the node is. -/
def kind? (tree : Tree) (id : NodeId) : Option NodeKind := (tree.node? id).map (·.kind)

/-- The parent of a node. -/
def parent? (tree : Tree) (id : NodeId) : Option NodeId := (tree.node? id).bind (·.parent?)

/-- The children of a node in order. -/
def children (tree : Tree) (id : NodeId) : List NodeId :=
  ((tree.node? id).map (·.children)).getD []

/-- Tag and attributes of a node that is an element. -/
def element? (tree : Tree) (id : NodeId) : Option Element :=
  match tree.kind? id with
  | some (.element element) => some element
  | _ => none

/-- The tag of an element. -/
def tag? (tree : Tree) (id : NodeId) : Option String := (tree.element? id).map (·.tag)

/-- Whether the node is an element with that tag, spelled in any case. -/
def isTagged (tree : Tree) (id : NodeId) (tag : String) : Bool :=
  (tree.tag? id).any (Ascii.sameName · tag)

/-- The data of a text node. -/
def text? (tree : Tree) (id : NodeId) : Option String :=
  match tree.kind? id with
  | some (.text data) => some data
  | _ => none

/-- The data of a text node or a marked section. -/
def characterData? (tree : Tree) (id : NodeId) : Option String :=
  match tree.kind? id with
  | some (.text data) => some data
  | some (.cdata data) => some data
  | _ => none

/-- The value of an attribute of an element. -/
def attribute? (tree : Tree) (id : NodeId) (name : String) : Option String :=
  (tree.element? id).bind (·.attributes.get? name)

/-- Whether an element has an attribute. -/
def hasAttribute (tree : Tree) (id : NodeId) (name : String) : Bool :=
  (tree.element? id).any (·.attributes.contains name)

/-! ## Creating and changing one node -/

/-- Adds a detached node to the store. Its name is the size before. -/
def create (tree : Tree) (kind : NodeKind) : NodeId × Tree :=
  (tree.size, { tree with nodes := tree.nodes.push ⟨kind, none, []⟩ })

/-- Adds a detached element. -/
def createElement (tree : Tree) (tag : String) (pairs : List (String × String)) :
    NodeId × Tree :=
  tree.create (.element (Element.ofPairs tag pairs))

/-- Changes one node, which has to be in the store. -/
def modify? (tree : Tree) (id : NodeId) (change : Node → Node) : Option Tree :=
  if id < tree.size then some { tree with nodes := tree.nodes.modify id change } else none

/-- Changes one node, if it is in the store. -/
def modify (tree : Tree) (id : NodeId) (change : Node → Node) : Tree :=
  { tree with nodes := tree.nodes.modify id change }

/-- Changes the attributes of an element; other nodes have none to change. -/
def modifyAttributes (tree : Tree) (id : NodeId) (change : Attributes → Attributes) : Tree :=
  tree.modify id fun node =>
    match node.kind with
    | .element element =>
      { node with kind := .element { element with attributes := change element.attributes } }
    | _ => node

/-- Gives an attribute of an element a value. -/
def setAttribute (tree : Tree) (id : NodeId) (name value : String) : Tree :=
  tree.modifyAttributes id (·.insert name value)

/-- Takes an attribute of an element away. -/
def eraseAttribute (tree : Tree) (id : NodeId) (name : String) : Tree :=
  tree.modifyAttributes id (·.erase name)

end Tree

end FirstPaint
