import FirstPaint.Proofs.Stylesheet.Recounting

/-!
# Runs without their refused additions

A run records which of its additions were accepted, with the count after each
(`Budget.attempts`). Refused ones can be left out of it, some or all of them, and the others
go as they went before (`omission`): the same ones are accepted, with the same counts, and
the documents at the end are equal.

The budgets of the two runs need not be equal. A refused addition may have found the
stylesheet, so the budget of the longer run can count what the document carries while the
other has not looked yet. The shorter run is never ahead of the longer one, and the longer
one is ahead by that discovery at most (`Budget.Ahead`). An addition reads a budget through
its limit, the count that it leads to and the stylesheet that it charges, and a budget that
is ahead has all three in common with the other.
-/

set_option autoImplicit false

namespace FirstPaint

namespace Budget

/-! ## Budgets that have looked for the stylesheet -/

/-- The second budget is the first one, or the first one once it has found the stylesheet of
the document. -/
inductive Ahead (tree : Tree) (budget : Budget) : Budget → Prop where
  | same : Ahead tree budget budget
  | found {style : NodeId} (missing : budget.style? = none)
      (present : tree.customStyle? = some style) :
      Ahead tree budget
        { budget with style? := some style, used := max budget.used tree.authorStyleSize }

section Ahead

variable {tree : Tree} {budget other : Budget} {css : String}

/-- A refusal leaves at most a discovery behind. -/
theorem ahead_of_refused (refused : (budget.add tree css).refusal?.isSome = true) :
    Ahead tree budget (budget.add tree css).budget := by
  rcases budget_of_refused refused with same | ⟨style, missing, present, later⟩
  · rw [same]
    exact .same
  · rw [later]
    exact .found missing present

theorem Ahead.limit (ahead : Ahead tree budget other) : other.limit = budget.limit := by
  cases ahead with
  | same => rfl
  | found => rfl

theorem Ahead.counted (ahead : Ahead tree budget other) :
    other.counted tree = budget.counted tree := by
  cases ahead with
  | same => rfl
  | found missing present => rw [counted_of_style? rfl, counted_of_found missing present]

/-- A document in which a stylesheet has been found has a head. -/
theorem Ahead.places (ahead : Ahead tree budget other) :
    (other.style?.isSome = true ∨ tree.head?.isSome = true) ↔
      (budget.style?.isSome = true ∨ tree.head?.isSome = true) := by
  cases ahead with
  | same => rfl
  | found missing present =>
      obtain ⟨head, headFound, -⟩ := Option.bind_eq_some_iff.mp present
      simp [headFound]

/-- Both accept the same rules. -/
theorem Ahead.accepts (ahead : Ahead tree budget other) (css : String) :
    (other.add tree css).refusal? = none ↔ (budget.add tree css).refusal? = none := by
  rw [(add_outcome other tree css).refusal?_eq_none_iff,
    (add_outcome budget tree css).refusal?_eq_none_iff, ahead.counted, ahead.limit, ahead.places]

/-- A budget that is ahead stays so over a refusal that the other one does not see. -/
theorem Ahead.of_refused (ahead : Ahead tree budget other)
    (refused : (other.add tree css).refusal?.isSome = true) :
    Ahead tree budget (other.add tree css).budget := by
  cases ahead with
  | same => exact ahead_of_refused refused
  | found missing present =>
      -- It knows the stylesheet already, so there is nothing more to discover.
      rcases budget_of_refused refused with same | ⟨style, unknown, -, -⟩
      · rw [same]
        exact .found missing present
      · exact absurd unknown (by simp)

/-- A refusal that both of them see leaves the one ahead of the other. -/
theorem Ahead.of_both_refused (ahead : Ahead tree budget other)
    (refused : (other.add tree css).refusal?.isSome = true)
    (refusedFirst : (budget.add tree css).refusal?.isSome = true) :
    Ahead tree (budget.add tree css).budget (other.add tree css).budget := by
  cases ahead with
  | same => exact .same
  | found missing present =>
      rcases budget_of_refused refused with stays | ⟨style, unknown, -, -⟩
      · rw [stays]
        rcases budget_of_refused refusedFirst with same | ⟨style, -, presentToo, later⟩
        · rw [same]
          exact .found missing present
        · cases present.symm.trans presentToo
          rw [later]
          exact .same
      · exact absurd unknown (by simp)

/-- A budget charges one stylesheet of a document. -/
theorem Located.unique {style otherStyle : NodeId} {middle otherMiddle : Tree}
    (located : Located budget tree style middle)
    (again : Located budget tree otherStyle otherMiddle) :
    otherStyle = style ∧ otherMiddle = middle := by
  cases located <;> cases again <;> simp_all

/-- The stylesheet that a budget ahead charges is the one that the other will charge. -/
theorem Ahead.located (ahead : Ahead tree budget other) {style otherStyle : NodeId}
    {middle otherMiddle : Tree} (located : Located budget tree style middle)
    (otherLocated : Located other tree otherStyle otherMiddle) :
    otherStyle = style ∧ otherMiddle = middle := by
  cases ahead with
  | same => exact located.unique otherLocated
  | found missing present =>
      obtain ⟨rfl, rfl⟩ := Located.unique (.found missing present) located
      exact Located.unique (.known rfl) otherLocated

/-- Rules that are accepted make up for a discovery: budgets and documents are equal again. -/
theorem Ahead.eq_of_accepted (ahead : Ahead tree budget other)
    (accepted : (other.add tree css).refusal? = none) :
    (other.add tree css).budget = (budget.add tree css).budget ∧
      (other.add tree css).tree = (budget.add tree css).tree := by
  have acceptedFirst := (ahead.accepts css).mp accepted
  have outcome := add_outcome budget tree css
  have otherOutcome := add_outcome other tree css
  generalize budget.add tree css = result at outcome acceptedFirst
  generalize other.add tree css = otherResult at otherOutcome accepted
  cases outcome with
  | exceeded => exact absurd acceptedFirst (by simp)
  | headless => exact absurd acceptedFirst (by simp)
  | charged located =>
      cases otherOutcome with
      | exceeded => exact absurd accepted (by simp)
      | headless => exact absurd accepted (by simp)
      | charged otherLocated =>
          obtain ⟨rfl, rfl⟩ := ahead.located located otherLocated
          exact ⟨by rw [ahead.limit, ahead.counted], rfl⟩

/-- **One addition.** If both budgets try the same rules, the documents stay equal and the one
budget stays ahead of the other. -/
theorem Ahead.add (ahead : Ahead tree budget other) (css : String) :
    (budget.add tree css).tree = (other.add tree css).tree ∧
      Ahead (other.add tree css).tree (budget.add tree css).budget
        (other.add tree css).budget := by
  by_cases accepted : (other.add tree css).refusal? = none
  · obtain ⟨sameBudget, sameTree⟩ := ahead.eq_of_accepted accepted
    rw [sameBudget]
    exact ⟨sameTree.symm, .same⟩
  · have refused := Option.isSome_iff_ne_none.mpr accepted
    have refusedFirst := Option.isSome_iff_ne_none.mpr (mt (ahead.accepts css).mpr accepted)
    rw [(add_outcome other tree css).tree_of_refused refused,
      (add_outcome budget tree css).tree_of_refused refusedFirst]
    exact ⟨rfl, ahead.of_both_refused refused refusedFirst⟩

end Ahead

/-! ## Runs -/

/-- Rules that a run has tried to add. -/
structure Attempt where
  /-- The rules. -/
  css : String
  /-- The count after they were added, if they were accepted. -/
  count? : Option Nat
deriving DecidableEq, Repr

/-- Whether the rules were accepted. -/
def Attempt.isAccepted (attempt : Attempt) : Bool := attempt.count?.isSome

/-- What a run keeps of the result of an addition. -/
def Attempt.of (css : String) (result : BudgetResult) : Attempt where
  css := css
  count? := if result.refusal?.isNone then some result.budget.used else none

/-- The additions of a run, one after another. -/
def attempts (budget : Budget) (tree : Tree) : List String → List Attempt
  | [] => []
  | css :: rest =>
      .of css (budget.add tree css) ::
        (budget.add tree css).budget.attempts (budget.add tree css).tree rest

section Runs

variable {tree : Tree} {budget other : Budget} {rules : List String} {kept : List Attempt}

theorem Attempt.isAccepted_of (css : String) (result : BudgetResult) :
    (Attempt.of css result).isAccepted = result.refusal?.isNone := by
  cases refused : result.refusal? with
  | none => simp [Attempt.of, Attempt.isAccepted, refused]
  | some => simp [Attempt.of, Attempt.isAccepted, refused]

/-- What is left of a list that has lost only rejected elements: the first one is among the
lost, or it is still the first one. -/
theorem rejected_or_eq_cons {α : Type} {accepts : α → Bool} {first : α} {rest left : List α}
    (sublist : left.Sublist (first :: rest))
    (complete : left.filter accepts = (first :: rest).filter accepts) :
    (accepts first = false ∧ left.Sublist rest ∧ left.filter accepts = rest.filter accepts) ∨
      ∃ others, left = first :: others ∧ others.Sublist rest ∧
        others.filter accepts = rest.filter accepts := by
  rcases List.sublist_cons_iff.mp sublist with lost | ⟨others, rfl, shared⟩
  · have shorter := (lost.filter accepts).length_le
    cases verdict : accepts first with
    | true =>
        rw [complete, List.filter_cons_of_pos verdict, List.length_cons] at shorter
        omega
    | false =>
        rw [List.filter_cons_of_neg (by simp [verdict])] at complete
        exact .inl ⟨rfl, lost, complete⟩
  · refine .inr ⟨others, rfl, shared, ?_⟩
    cases verdict : accepts first with
    | true => simpa [verdict] using complete
    | false => simpa [verdict] using complete

/-- Both budgets refuse the rules, or both accept them with the same count. -/
theorem Ahead.attempt_eq (ahead : Ahead tree budget other) (css : String) :
    Attempt.of css (budget.add tree css) = Attempt.of css (other.add tree css) := by
  unfold Attempt.of
  by_cases accepted : (other.add tree css).refusal? = none
  · rw [accepted, (ahead.accepts css).mp accepted, (ahead.eq_of_accepted accepted).1]
  · have refused := mt (ahead.accepts css).mpr accepted
    simp only [Option.isNone_iff_eq_none, accepted, refused, if_false]

/-- A run that leaves out refused additions of another one, with a budget that the other one
is ahead of. The induction is on the rules of the longer run, and both budgets move. -/
theorem Ahead.attempts_eq (ahead : Ahead tree budget other)
    (sublist : kept.Sublist (other.attempts tree rules))
    (complete : kept.filter Attempt.isAccepted =
      (other.attempts tree rules).filter Attempt.isAccepted) :
    budget.attempts tree (kept.map Attempt.css) = kept ∧
      (budget.addAll tree (kept.map Attempt.css)).2 = (other.addAll tree rules).2 := by
  induction rules generalizing budget other tree kept with
  | nil =>
      obtain rfl := List.sublist_nil.mp sublist
      exact ⟨rfl, rfl⟩
  | cons css rest ih =>
      rcases rejected_or_eq_cons sublist complete with
        ⟨rejected, sublist, complete⟩ | ⟨others, rfl, sublist, complete⟩
      · rw [Attempt.isAccepted_of, Option.isNone_eq_false_iff] at rejected
        have stays := (add_outcome other tree css).tree_of_refused rejected
        rw [stays] at sublist complete
        rw [addAll, stays]
        exact ih (ahead.of_refused rejected) sublist complete
      · -- The first addition is made by both.
        obtain ⟨sameTree, next⟩ := ahead.add css
        obtain ⟨later, last⟩ := ih next sublist complete
        constructor
        · rw [← sameTree] at later
          exact congrArg₂ List.cons (ahead.attempt_eq css) later
        · change ((budget.add tree css).budget.addAll (budget.add tree css).tree _).2 = _
          rw [sameTree]
          exact last

/-- **Refused additions can be left out.** Rules are added one after another with a fresh
budget, to any document. The same rules without some of those that were refused are accepted
and refused as before, with the same count after each accepted addition, and lead to the same
document. -/
theorem omission (tree : Tree) (limit : Nat) (rules : List String)
    (sublist : kept.Sublist (Budget.attempts { limit } tree rules))
    (complete : kept.filter Attempt.isAccepted =
      (Budget.attempts { limit } tree rules).filter Attempt.isAccepted) :
    Budget.attempts { limit } tree (kept.map Attempt.css) = kept ∧
      (Budget.addAll { limit } tree (kept.map Attempt.css)).2 =
        (Budget.addAll { limit } tree rules).2 :=
  Ahead.same.attempts_eq sublist complete

end Runs

/-- The first rules find a stylesheet that leaves too little for them. Without them the run
starts from an empty budget and comes to the same. -/
theorem omission_styledTree :
    let rules := ["bb{}", "c{}", "d{}"]
    let kept : List Attempt := [⟨"c{}", some 6⟩, ⟨"d{}", none⟩]
    Budget.attempts { limit := 6 } styledTree rules = ⟨"bb{}", none⟩ :: kept ∧
      Budget.attempts { limit := 6 } styledTree ["c{}", "d{}"] = kept ∧
      (Budget.addAll { limit := 6 } styledTree ["c{}", "d{}"]).2 =
        (Budget.addAll { limit := 6 } styledTree rules).2 := by
  intro rules kept
  have full : Budget.attempts { limit := 6 } styledTree rules = ⟨"bb{}", none⟩ :: kept := by
    decide +kernel
  have sublist : kept.Sublist (Budget.attempts { limit := 6 } styledTree rules) := by
    rw [full]
    exact List.sublist_cons_self _ _
  exact ⟨full, omission styledTree 6 rules sublist (by decide +kernel)⟩

end Budget

end FirstPaint
