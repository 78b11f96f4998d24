import FirstPaint.Document.Tree
import FirstPaint.Markup.Escape

/-!
# Writing markup

The content of a node, freed from names and links, is a `Fragment`: an
inductive tree of elements and data. Writing is defined on fragments by
recursion, so what is written depends on nothing but the content.

Attributes and nodes are written in their order. An attribute with an empty
value is written as its bare name. Void elements have neither content nor end
tag. Text directly inside a raw-text element is written as it is, all other
text is escaped.
-/

set_option autoImplicit false

namespace FirstPaint

/-- What a node contains, apart from where it is stored. -/
inductive Fragment where
  /-- The parts of a document. -/
  | document (parts : List Fragment)
  /-- An element and its content. -/
  | element (element : Element) (parts : List Fragment)
  /-- Character data. -/
  | text (data : String)
  /-- A comment. -/
  | comment (data : String)
  /-- Character data in a marked section. -/
  | cdata (data : String)
deriving Repr

/-- Tags of elements that are written without content and end tag. -/
def voidTags : List String :=
  ["area", "base", "basefont", "bgsound", "br", "col", "embed", "frame", "hr", "img", "input",
    "keygen", "link", "meta", "param", "source", "track", "wbr"]

/-- Tags of elements whose text is written without escaping. -/
def rawTextTags : List String :=
  ["style", "script", "xmp", "iframe", "noembed", "noframes", "plaintext"]

/-- An attribute as it stands in a start tag, with the space before it. -/
def Attribute.markup (entry : Attribute) : List Char :=
  ' ' :: entry.name.toList ++
    if entry.value.isEmpty then []
    else '=' :: '"' :: EscapeContext.attributeValue.escape entry.value.toList ++ ['"']

/-- The start tag of an element. -/
def Element.startTag (element : Element) : List Char :=
  '<' :: element.tag.toList ++ element.attributes.toList.flatMap Attribute.markup ++ ['>']

/-- The end tag of an element. -/
def Element.endTag (element : Element) : List Char :=
  '<' :: '/' :: element.tag.toList ++ ['>']

/-- Whether text directly inside the element is written without escaping. -/
def Element.holdsRawText (element : Element) : Bool := rawTextTags.contains element.tag

namespace Fragment

mutual

/-- The markup of a fragment. The flag says that it stands directly inside a
raw-text element. -/
def markup (raw : Bool) : Fragment → List Char
  | .document parts => markupAll false parts
  | .element holder parts =>
    if voidTags.contains holder.tag then holder.startTag
    else holder.startTag ++ markupAll holder.holdsRawText parts ++ holder.endTag
  | .text data => if raw then data.toList else EscapeContext.content.escape data.toList
  | .comment data => "<!--".toList ++ data.toList ++ "-->".toList
  | .cdata data => "<![CDATA[".toList ++ data.toList ++ "]]>".toList

/-- The markup of fragments that follow one another. -/
def markupAll (raw : Bool) : List Fragment → List Char
  | [] => []
  | first :: rest => markup raw first ++ markupAll raw rest

end

end Fragment

namespace Tree

variable (tree : Tree)

/-- The content of a node down to a given number of levels. A name outside the
store has none. -/
def fragmentUpTo : Nat → NodeId → Option Fragment
  | 0, _ => none
  | levels + 1, id =>
    let parts := (tree.children id).filterMap (fragmentUpTo levels)
    (tree.kind? id).map fun
      | .document => .document parts
      | .element element => .element element parts
      | .text data => .text data
      | .comment data => .comment data
      | .cdata data => .cdata data

/-- The content of a node. No path in a tree without cycles is longer than the
store, so nothing is cut off there. -/
def fragment? (id : NodeId) : Option Fragment := tree.fragmentUpTo tree.size id

/-- Whether a node is an element that holds raw text. -/
def holdsRawText (id : NodeId) : Bool := (tree.element? id).any (·.holdsRawText)

/-- The markup of a node with its own tags. -/
def outerMarkup (id : NodeId) : String :=
  String.ofList (((tree.fragment? id).map (Fragment.markup
    ((tree.parent? id).any tree.holdsRawText))).getD [])

/-- The markup of what stands inside a node. -/
def innerMarkup (id : NodeId) : String :=
  String.ofList (Fragment.markupAll (tree.holdsRawText id)
    ((tree.children id).filterMap tree.fragment?))

/-- The start tag of an element, and nothing for any other node. -/
def startTag (id : NodeId) : String :=
  String.ofList (((tree.element? id).map Element.startTag).getD [])

end Tree

end FirstPaint
