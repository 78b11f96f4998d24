import FirstPaint.Text.Ascii

/-!
# Elements

An element has a tag and attributes. Its attributes form a map from names to
values that remembers the order in which the names first appeared. Tags and
names are kept in lower case, and every operation puts the name it is given
into lower case first, so a name may be spelled in any way.
-/

set_option autoImplicit false

namespace FirstPaint

/-- One attribute of an element. -/
structure Attribute where
  /-- The name, in lower case. -/
  name : String
  /-- The value; empty for an attribute that only has to be present. -/
  value : String
deriving DecidableEq, Repr

/-- The attributes of an element, in order of first appearance. -/
structure Attributes where
  /-- The attributes in order. -/
  toList : List Attribute
deriving DecidableEq, Repr

namespace Attributes

/-- No attributes. -/
def empty : Attributes := ⟨[]⟩

instance : EmptyCollection Attributes := ⟨empty⟩

instance : Inhabited Attributes := ⟨empty⟩

/-- The value of an attribute, if it is present. -/
def get? (attributes : Attributes) (name : String) : Option String :=
  (attributes.toList.find? (·.name == Ascii.lower name)).map (·.value)

/-- Whether an attribute is present, with whatever value. -/
def contains (attributes : Attributes) (name : String) : Bool :=
  attributes.toList.any (·.name == Ascii.lower name)

/-- Replaces the first entry of that name, or adds one at the end. -/
def insertEntry (entry : Attribute) : List Attribute → List Attribute
  | [] => [entry]
  | first :: rest =>
    if first.name = entry.name then entry :: rest else first :: insertEntry entry rest

/-- Gives an attribute a value. A name that is present keeps its place, a new
one comes last. -/
def insert (attributes : Attributes) (name value : String) : Attributes :=
  ⟨insertEntry ⟨Ascii.lower name, value⟩ attributes.toList⟩

/-- Takes an attribute away; the others keep their order. -/
def erase (attributes : Attributes) (name : String) : Attributes :=
  ⟨attributes.toList.filter (·.name != Ascii.lower name)⟩

/-- The attribute list that results from giving the values one after another. -/
def ofList (pairs : List (String × String)) : Attributes :=
  pairs.foldl (fun attributes pair => attributes.insert pair.1 pair.2) ∅

/-- The names in order. -/
def names (attributes : Attributes) : List String := attributes.toList.map (·.name)

/-- The number of attributes. -/
def size (attributes : Attributes) : Nat := attributes.toList.length

end Attributes

/-- What distinguishes one element from another, apart from its place. -/
structure Element where
  /-- The tag, in lower case. -/
  tag : String
  /-- The attributes. -/
  attributes : Attributes
deriving DecidableEq, Repr

/-- The element with a tag, spelled in any case, and attributes given one after
another. -/
def Element.ofPairs (tag : String) (pairs : List (String × String)) : Element :=
  ⟨Ascii.lower tag, Attributes.ofList pairs⟩

end FirstPaint
