import FirstPaint.Document.Traversal

/-!
# Well-known elements and generated names

Finding the parts of a document by their role (the html element, its head and
its body) and by their id, and giving an element an id that no other element of
the document has.
-/

set_option autoImplicit false

namespace FirstPaint

namespace Tree

/-! ## Parts of a document -/

/-- The first element at the top of the document. -/
def documentElement? (tree : Tree) : Option NodeId :=
  (tree.children root).find? fun id => (tree.element? id).isSome

/-- The document element, if it is an html element. -/
def html? (tree : Tree) : Option NodeId :=
  tree.documentElement?.filter (tree.isTagged · "html")

/-- The first child of the html element that has a given tag. -/
def htmlChild? (tree : Tree) (tag : String) : Option NodeId := do
  (tree.children (← tree.html?)).find? (tree.isTagged · tag)

/-- The head of the document. -/
def head? (tree : Tree) : Option NodeId := tree.htmlChild? "head"

/-- The body of the document, or its frame set. -/
def body? (tree : Tree) : Option NodeId := tree.htmlChild? "body" <|> tree.htmlChild? "frameset"

/-! ## Ids -/

/-- The first attached element whose id is the given text. -/
def elementWithId? (tree : Tree) (text : String) : Option NodeId :=
  (tree.descendants root).find? fun id => tree.attribute? id "id" == some text

/-- The number of the next generated name that starts with a given text. -/
def nextNumber (tree : Tree) (start : String) : Nat := (tree.counters.lookup start).getD 0

/-- A name that starts with the given text and was not generated before: the
numbers zero, one, two and so on follow it. -/
def freshName (tree : Tree) (start : String) : String × Tree :=
  let number := tree.nextNumber start
  (start ++ toString number,
    { tree with counters := (start, number + 1) :: tree.counters.filter (·.1 != start) })

/-- What generated ids start with. -/
def generatedIdStart : String := "i-amp-"

/-- A fresh name that is no id of an attached element. The number of further
attempts bounds the search. -/
def freshId : Nat → Tree → String × Tree
  | 0, tree => tree.freshName generatedIdStart
  | attempts + 1, tree =>
    let (candidate, counted) := tree.freshName generatedIdStart
    if (counted.elementWithId? candidate).isSome then freshId attempts counted
    else (candidate, counted)

/-- The id of an element. An element without one is given a fresh id. Each id
that is taken belongs to another descendant of the document, so one attempt
more than there are descendants always succeeds. -/
def ensureId (tree : Tree) (id : NodeId) : String × Tree :=
  match tree.attribute? id "id" with
  | some present => (present, tree)
  | none =>
    let (fresh, counted) := freshId (tree.descendants root).length tree
    (fresh, counted.setAttribute id "id" fresh)

end Tree

end FirstPaint
