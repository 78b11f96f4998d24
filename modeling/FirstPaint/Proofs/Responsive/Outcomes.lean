import FirstPaint.Proofs.Responsive.Taking
import FirstPaint.Proofs.Stylesheet.Accounting

/-!
# How an attempt to move attributes ends

An attempt to move the blocking attributes of an element ends in one of four ways
(`MoveOutcome`): there is nothing that can be read and nothing changes; nothing is asked of
the stylesheet and the attributes are only taken away; the rules are refused and an id that
was made up for them is taken back; or the rules are accepted, with the id that the element
has from then on.
-/

set_option autoImplicit false

namespace FirstPaint

/-- The ways in which an attempt can end, with the rules that are accepted. -/
inductive MoveOutcome (budget : Budget) (tree : Tree) (id : NodeId) :
    Option String → MoveResult → Prop where
  /-- No blocking attributes can be read. -/
  | unread {problem? : Option MoveError}
      (nothing : ∀ found, (tree.element? id).map Element.blockingStyles ≠ some (.ok found)) :
      MoveOutcome budget tree id none { problem?, budget, tree }
  /-- No rules are needed. -/
  | bare {element : Element} {found : List FoundStyle} (isElement : tree.element? id = some element)
      (read : element.blockingStyles = .ok found)
      (nothing : found.all (·.style.isNothing) = true) :
      MoveOutcome budget tree id none { budget, tree := eraseFound tree id found }
  /-- The rules are refused. -/
  | refused {element : Element} {found : List FoundStyle} {reason : BudgetError}
      (isElement : tree.element? id = some element) (read : element.blockingStyles = .ok found)
      (something : found.all (·.style.isNothing) = false)
      (refusal : (budget.add (tree.ensureId id).2
        (rulesFor found (tree.ensureId id).1)).refusal? = some reason) :
      MoveOutcome budget tree id none
        { problem? := some (.refused reason)
          budget := (budget.add (tree.ensureId id).2 (rulesFor found (tree.ensureId id).1)).budget
          tree :=
            if tree.hasAttribute id "id" then (tree.ensureId id).2
            else (tree.ensureId id).2.eraseAttribute id "id" }
  /-- The rules are accepted. -/
  | accepted {element : Element} {found : List FoundStyle}
      (isElement : tree.element? id = some element) (read : element.blockingStyles = .ok found)
      (something : found.all (·.style.isNothing) = false)
      (allowed : (budget.add (tree.ensureId id).2
        (rulesFor found (tree.ensureId id).1)).refusal? = none) :
      MoveOutcome budget tree id (some (rulesFor found (tree.ensureId id).1))
        { budget := (budget.add (tree.ensureId id).2 (rulesFor found (tree.ensureId id).1)).budget
          tree := eraseFound
            (budget.add (tree.ensureId id).2 (rulesFor found (tree.ensureId id).1)).tree id found }

/-- Every attempt ends in one of these ways. -/
theorem moveToStylesheet_outcome (budget : Budget) (tree : Tree) (id : NodeId) :
    MoveOutcome budget tree id (acceptedRules? budget tree id)
      (moveToStylesheet budget tree id) := by
  cases isElement : tree.element? id with
  | none =>
      simp only [moveToStylesheet, acceptedRules?, isElement, Option.map_none]
      exact .unread (by simp [isElement])
  | some element =>
      cases read : element.blockingStyles with
      | error problem =>
          simp only [moveToStylesheet, acceptedRules?, isElement, Option.map_some, read]
          exact .unread (by simp [isElement, read])
      | ok found =>
          simp only [moveToStylesheet, acceptedRules?, isElement, Option.map_some, read]
          cases nothing : found.all (·.style.isNothing) with
          | true => exact .bare isElement read nothing
          | false =>
              simp only [Bool.false_eq_true, if_false, addRules]
              have outcome := Budget.add_outcome budget (tree.ensureId id).2
                (rulesFor found (tree.ensureId id).1)
              cases refusal : (budget.add (tree.ensureId id).2
                  (rulesFor found (tree.ensureId id).1)).refusal? with
              | none =>
                  dsimp only
                  exact .accepted isElement read nothing refusal
              | some reason =>
                  dsimp only
                  rw [outcome.tree_of_refused (by rw [refusal]; rfl)]
                  exact .refused isElement read nothing refusal

end FirstPaint
