import FirstPaint.Proofs.Stylesheet.Landing
import FirstPaint.Responsive.Move

/-!
# What moving attributes does

An attempt to move the blocking attributes of an element writes to the attributes
of that element and adds rules to the custom stylesheet; the tree only grows. If the
budget accepts the rules, they are in the stylesheet afterwards.

`acceptedRules?` names the rules that the budget accepts for an element: there are
none if the element asks for none, if one of its attributes cannot be read, or if
the rules are refused.
-/

set_option autoImplicit false

namespace FirstPaint

/-- The rules that are accepted when the attributes of an element are moved. -/
def acceptedRules? (budget : Budget) (tree : Tree) (element : NodeId) : Option String :=
  match (tree.element? element).map Element.blockingStyles with
  | some (.ok found) =>
    if found.all (·.style.isNothing) then none
    else
      let (id, named) := tree.ensureId element
      match (budget.add named (rulesFor found id)).refusal? with
      | none => some (rulesFor found id)
      | some _ => none
  | _ => none

section Moving

variable {scope : Scope} {added : Element → Prop} {tree middle : Tree} {html element : NodeId}
  {budget : Budget}

theorem ensureId_grows (site : tree.Site scope html) (written : scope.written element) :
    tree.Grows scope added (tree.ensureId element).2 := by
  unfold Tree.ensureId
  split
  next => exact .refl site.forest
  next =>
    have counted : tree.Grows scope added
        (Tree.freshId (tree.descendants Tree.root).length tree).2 :=
      (Tree.Grows.refl site.forest).of_nodes (Tree.freshId_nodes _ tree)
    exact counted.setAttribute "id" _ (site.writtenInside element written) written

theorem eraseFound_grows (grows : tree.Grows scope added middle)
    (inside : element < tree.size) (written : scope.written element) (found : List FoundStyle) :
    tree.Grows scope added (eraseFound middle element found) := by
  induction found generalizing middle with
  | nil => exact grows
  | cons entry rest ih => exact ih (grows.eraseAttribute entry.name inside written)

theorem addRules_problem? (budget : Budget) (tree : Tree) (element : NodeId)
    (found : List FoundStyle) :
    (addRules budget tree element found).problem? =
      (budget.add (tree.ensureId element).2
        (rulesFor found (tree.ensureId element).1)).refusal?.map .refused := by
  unfold addRules
  simp only
  split
  next accepted => rw [accepted, Option.map_none]
  next reason refused => rw [refused, Option.map_some]

/-- Rules that are added without a problem have landed. -/
theorem addRules_lands (site : tree.Site scope html) (settled : budget.Settled tree)
    (written : scope.written element) (found : List FoundStyle) :
    let result := addRules budget tree element found
    Budget.Lands scope
      (fun css => result.problem? = none ∧ css = rulesFor found (tree.ensureId element).1) budget
      tree result.budget result.tree := by
  intro result
  have named : tree.Grows scope Element.Plain _ := ensureId_grows site written
  have namedSite := site.grown named
  have added := (Budget.Lands.of_grows site settled named).trans site
    (Budget.add_lands namedSite (settled.grows site named)
      (rulesFor found (tree.ensureId element).1))
  simp only [result, addRules]
  split
  next accepted => exact added.mono fun css landed => .inr ⟨accepted, landed.2⟩
  next reason refused =>
    split
    next => exact added.mono fun css landed => absurd landed.1 (by simp)
    next =>
      -- An id that was made up is taken back.
      have addedSite := site.grown added.grows
      have erased : Tree.Grows scope Element.Plain _ _ :=
        (Tree.Grows.refl addedSite.forest).eraseAttribute "id"
          (addedSite.writtenInside element written) written
      exact (added.trans site (.of_grows addedSite added.settled erased)).mono
        fun css landed => absurd landed.1 (by simp)

/-- Accepted rules of an element have landed when its attributes are taken away. -/
theorem moveToStylesheet_lands (site : tree.Site scope html)
    (settled : budget.Settled tree) (written : scope.written element) :
    let result := moveToStylesheet budget tree element
    Budget.Lands scope (acceptedRules? budget tree element = some ·) budget tree
      result.budget result.tree := by
  intro result
  have still : Budget.Lands scope (fun _ => False) budget tree budget tree :=
    .of_grows site settled (.refl site.forest)
  cases read : (tree.element? element).map Element.blockingStyles with
  | none =>
      simp only [result, moveToStylesheet, acceptedRules?, read]
      exact still.mono fun css landed => absurd landed (by simp)
  | some styles =>
      cases styles with
      | error problem =>
          simp only [result, moveToStylesheet, acceptedRules?, read]
          exact still.mono fun css landed => absurd landed (by simp)
      | ok found =>
          have added := addRules_lands site settled written found
          have erased : ∀ {later : Budget} {middle : Tree} {accepted : String → Prop},
              Budget.Lands scope accepted budget tree later middle →
              Budget.Lands scope accepted budget tree later
                (eraseFound middle element found) := by
            intro later middle accepted lands
            have middleSite := site.grown lands.grows
            have grows : Tree.Grows scope Element.Plain _ _ :=
              eraseFound_grows (.refl middleSite.forest) (middleSite.writtenInside element written)
                written found
            exact (lands.trans site (.of_grows middleSite lands.settled grows)).mono
              fun css landed => .inl landed
          simp only [result, moveToStylesheet, acceptedRules?, read]
          split
          next => exact (erased still).mono fun css landed => absurd landed (by simp)
          next =>
            have problem := addRules_problem? budget tree element found
            cases refused : (budget.add (tree.ensureId element).2
                (rulesFor found (tree.ensureId element).1)).refusal? with
            | none =>
                rw [refused, Option.map_none] at problem
                simp only [problem]
                exact (erased added).mono fun css same => ⟨problem, (Option.some.inj same).symm⟩
            | some reason =>
                rw [refused, Option.map_some] at problem
                simp only [problem]
                exact added.mono fun css landed => absurd landed (by simp)

end Moving

end FirstPaint
