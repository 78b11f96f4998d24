import FirstPaint.Report.Finding
import FirstPaint.Responsive.Attribute
import FirstPaint.Stylesheet.Budget

/-!
# Moving attributes into the stylesheet

The attributes of an element that block rendering are turned into rules and
taken away. All of them move together: if one cannot be read, or if the rules
do not fit into the budget, the element keeps every one of them. Rules address
the element by its id, and an id that was made up for them is taken back when
they are refused.
-/

set_option autoImplicit false

namespace FirstPaint

/-- Why the attributes of an element stay. -/
inductive MoveError where
  /-- A list of conditional sizes cannot be read. -/
  | malformed (problem : UnreadableSizes)
  /-- The rules were not added. -/
  | refused (reason : BudgetError)
deriving DecidableEq, Repr

namespace MoveError

/-- The wording of the problem. -/
def message : MoveError → String
  | .malformed problem => problem.message
  | .refused reason => reason.message

/-- The cause under which the problem is reported. -/
def cause : MoveError → RenderingProblem
  | .malformed _ => .malformedAttribute
  | .refused _ => .budgetExceeded

end MoveError

/-- A blocking attribute that was found on an element. -/
structure FoundStyle where
  /-- The name of the attribute. -/
  name : String
  /-- What it asks of the stylesheet. -/
  style : ResponsiveStyle
deriving DecidableEq, Repr

/-- The blocking attributes in a list of attributes, in their order, or the
first one that cannot be read. -/
def readBlocking (hasImageSources : Bool) :
    List Attribute → Except UnreadableSizes (List FoundStyle)
  | [] => .ok []
  | entry :: rest =>
    match ResponsiveAttribute.ofName? entry.name with
    | none => readBlocking hasImageSources rest
    | some blocking => do
      let style ← ResponsiveStyle.read blocking entry.value hasImageSources
      return ⟨entry.name, style⟩ :: (← readBlocking hasImageSources rest)

/-- Whether an attribute is present with a value that is not empty. -/
def Attributes.hasValue (attributes : Attributes) (name : String) : Bool :=
  (attributes.get? name).any (!·.isEmpty)

/-- The blocking attributes of an element. -/
def Element.blockingStyles (element : Element) : Except UnreadableSizes (List FoundStyle) :=
  readBlocking (element.attributes.hasValue "srcset") element.attributes.toList

/-- What an attempt to move attributes leaves behind. -/
structure MoveResult where
  /-- Why the attributes stayed, if they did. -/
  problem? : Option MoveError := none
  /-- The budget afterwards. -/
  budget : Budget
  /-- The document afterwards. -/
  tree : Tree
deriving Repr

/-- The rules that a list of found attributes asks for. -/
def rulesFor (found : List FoundStyle) (id : String) : String :=
  String.ofList (found.flatMap (·.style.rules id))

/-- Takes the found attributes away from an element. -/
def eraseFound (tree : Tree) (element : NodeId) (found : List FoundStyle) : Tree :=
  found.foldl (fun tree entry => tree.eraseAttribute element entry.name) tree

/-- Adds the rules for found attributes, with an id made up for the element if
it has none. -/
def addRules (budget : Budget) (tree : Tree) (element : NodeId) (found : List FoundStyle) :
    MoveResult :=
  let hadId := tree.hasAttribute element "id"
  -- The rules name the id, so it has to be there before they are added.
  let (id, named) := tree.ensureId element
  let added := budget.add named (rulesFor found id)
  match added.refusal? with
  | none => { budget := added.budget, tree := added.tree }
  | some reason =>
    { problem? := some (.refused reason)
      budget := added.budget
      tree := if hadId then added.tree else added.tree.eraseAttribute element "id" }

/-- Moves the blocking attributes of an element into the custom stylesheet. -/
def moveToStylesheet (budget : Budget) (tree : Tree) (element : NodeId) : MoveResult :=
  match (tree.element? element).map Element.blockingStyles with
  | none => { budget, tree }
  | some (.error problem) => { problem? := some (.malformed problem), budget, tree }
  | some (.ok found) =>
    -- Without rules to add, neither an id nor the stylesheet is needed.
    if found.all (·.style.isNothing) then { budget, tree := eraseFound tree element found }
    else
      let added := addRules budget tree element found
      match added.problem? with
      | none => { added with tree := eraseFound added.tree element found }
      | some _ => added

end FirstPaint
