import FirstPaint.Document.Tree

/-!
# Walking through a tree

Siblings, ancestors and descendants of a node. Ancestors are listed from the
parent upwards. Descendants are listed in document order: each child is
followed by its own descendants before the next child comes.

Both walks take at most as many steps as there are nodes in the store. A tree
without cycles has no longer path, so the bound never cuts a walk short there.
-/

set_option autoImplicit false

namespace FirstPaint

namespace Tree

variable (tree : Tree)

/-! ## Siblings -/

/-- The first child. -/
def firstChild? (id : NodeId) : Option NodeId := (tree.children id).head?

/-- The last child. -/
def lastChild? (id : NodeId) : Option NodeId := (tree.children id).getLast?

/-- The children of the parent, with the place of the node among them. -/
def placeAmongSiblings? (id : NodeId) : Option (List NodeId × Nat) := do
  let siblings := tree.children (← tree.parent? id)
  return (siblings, ← siblings.idxOf? id)

/-- The sibling right after the node. -/
def nextSibling? (id : NodeId) : Option NodeId := do
  let (siblings, place) ← tree.placeAmongSiblings? id
  siblings[place + 1]?

/-- The sibling right before the node. -/
def previousSibling? (id : NodeId) : Option NodeId := do
  let (siblings, place) ← tree.placeAmongSiblings? id
  if place = 0 then none else siblings[place - 1]?

/-! ## Ancestors -/

/-- The first ancestors of a node, at most a given number of them. -/
def ancestorsUpTo : Nat → NodeId → List NodeId
  | 0, _ => []
  | steps + 1, id =>
    match tree.parent? id with
    | none => []
    | some parent => parent :: ancestorsUpTo steps parent

/-- The ancestors of a node, from its parent upwards. -/
def ancestors (id : NodeId) : List NodeId := tree.ancestorsUpTo tree.size id

/-- Whether a node lies below another one. -/
def isDescendant (descendant ancestor : NodeId) : Bool :=
  (tree.ancestors descendant).contains ancestor

/-- Whether some ancestor is an element with that tag. -/
def isInside (id : NodeId) (tag : String) : Bool :=
  (tree.ancestors id).any (tree.isTagged · tag)

/-! ## Descendants -/

/-- The descendants of a node that lie at most a given number of levels below. -/
def descendantsUpTo : Nat → NodeId → List NodeId
  | 0, _ => []
  | levels + 1, id =>
    (tree.children id).flatMap fun child => child :: descendantsUpTo levels child

/-- The descendants of a node in document order. -/
def descendants (id : NodeId) : List NodeId := tree.descendantsUpTo tree.size id

/-- The element descendants that satisfy a condition, in document order. -/
def elementsBelow (scope : NodeId) (condition : NodeId → Element → Bool) : List NodeId :=
  (tree.descendants scope).filter fun id => (tree.element? id).any (condition id)

/-- The character data of a node: its own, or else that of its descendants in
document order. -/
def textContent (id : NodeId) : String :=
  match tree.characterData? id with
  | some data => data
  | none => String.join ((tree.descendants id).filterMap tree.characterData?)

end Tree

end FirstPaint
