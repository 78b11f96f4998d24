import FirstPaint.Document.Editing
import FirstPaint.Stylesheet.Author

/-!
# The style budget

Rules are added to the custom stylesheet under a limit on the bytes of author
styles. The budget finds the stylesheet, or creates it, when the first rules
are added. Finding one raises the count to what the document already carries.
Rules are added as a whole or not at all.
-/

set_option autoImplicit false

namespace FirstPaint

/-- The custom stylesheet and the bytes counted against its limit. -/
structure Budget where
  /-- The greatest count that is accepted. -/
  limit : Nat
  /-- The bytes counted so far. -/
  used : Nat := 0
  /-- The stylesheet, once it has been found or created. -/
  style? : Option NodeId := none
deriving DecidableEq, Repr

/-- Why rules were not added. -/
inductive BudgetError where
  /-- The count would pass the limit. -/
  | exceeded (used addition limit : Nat)
  /-- There is no head that could hold a stylesheet. -/
  | missingHead
deriving DecidableEq, Repr

/-- The wording of a refusal. -/
def BudgetError.message : BudgetError → String
  | .exceeded used addition limit =>
    "adding " ++ toString addition ++ " bytes to " ++ toString used ++ " would exceed the " ++
      toString limit ++ " byte CSS limit"
  | .missingHead => "document has no <head> to hold the custom stylesheet"

/-- What an attempt to add rules leaves behind. -/
structure BudgetResult where
  /-- Why nothing was added, if nothing was. -/
  refusal? : Option BudgetError := none
  /-- The budget afterwards. -/
  budget : Budget
  /-- The document afterwards. -/
  tree : Tree
deriving Repr

namespace Budget

/-- The refusal of an addition that would take the count past the limit. -/
def refusal? (budget : Budget) (addition : Nat) : Option BudgetError :=
  if budget.limit < budget.used + addition then
    some (.exceeded budget.used addition budget.limit)
  else none

/-- Finds the stylesheet or creates an empty one at the end of the head. -/
def locate (budget : Budget) (tree : Tree) : BudgetResult :=
  match tree.customStyle? with
  | some style =>
    { budget :=
        { budget with style? := some style, used := max budget.used tree.authorStyleSize }
      tree }
  | none =>
    match tree.head? with
    | none => { refusal? := some .missingHead, budget, tree }
    | some head =>
      let (style, created) := tree.createElement "style" [(customStyleMarker, "")]
      { budget := { budget with style? := some style }
        tree := created.append head style }

/-- Adds rules to a stylesheet that is at hand, if the limit allows them. -/
def charge (budget : Budget) (tree : Tree) (style : NodeId) (css : String) : BudgetResult :=
  match budget.refusal? css.utf8ByteSize with
  | some refusal => { refusal? := some refusal, budget, tree }
  | none =>
    { budget := { budget with used := budget.used + css.utf8ByteSize }
      tree := tree.appendText style css }

/-- Adds rules to the custom stylesheet. The limit is checked before the
stylesheet is looked for, and once more against the count it brings. -/
def add (budget : Budget) (tree : Tree) (css : String) : BudgetResult :=
  match budget.refusal? css.utf8ByteSize with
  | some refusal => { refusal? := some refusal, budget, tree }
  | none =>
    match budget.style? with
    | some style => budget.charge tree style css
    | none =>
      -- A stylesheet that was found may take up what the first check left free.
      let located := budget.locate tree
      match located.refusal?, located.budget.style? with
      | none, some style => located.budget.charge located.tree style css
      | _, _ => located

end Budget

end FirstPaint
