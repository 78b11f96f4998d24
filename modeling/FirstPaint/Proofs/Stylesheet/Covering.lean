import FirstPaint.Proofs.Layout.StyleGrowth
import FirstPaint.Proofs.Stylesheet.Recounting

/-!
# A count that covers the stylesheet

While style attributes are written without a budget, its count falls behind what is
measured. What it keeps up with is the stylesheet together with the style attributes that
the document had at the start (`Budget.Covers`). Both keep the limit, and once the budget
has a stylesheet its count is no less than both. A second bound goes along: the number of
bytes that have been written into style attributes since the start.

A budget counts style attributes only where it finds a stylesheet. So the comparison starts
from documents that have a stylesheet or have no style attributes.
-/

set_option autoImplicit false

namespace FirstPaint

namespace Budget

/-- A budget and a document while the author styles of a first document are kept within a
limit, which the budget does not exceed: the stylesheet together with the style attributes of
the first document keeps the limit, a budget that has the stylesheet counts both, and layouts
have written a known number of bytes at most. -/
structure Covers (first : Tree) (limit written : Nat) (budget : Budget) (tree : Tree) :
    Prop where
  forest : tree.Forest
  budgetLimit : budget.limit ≤ limit
  kept : ∀ {style}, first.customStyle? = some style → tree.customStyle? = some style
  within : tree.stylesheetSize + first.inlineStyleSize ≤ limit
  located : ∀ {style}, budget.style? = some style → tree.customStyle? = some style ∧
    tree.stylesheetSize + first.inlineStyleSize ≤ budget.used
  atLeast : first.inlineStyleSize ≤ tree.inlineStyleSize
  atMost : tree.inlineStyleSize ≤ first.inlineStyleSize + written

section Covers

variable {first tree after : Tree} {limit written more : Nat} {budget : Budget}

theorem Covers.mono (covers : Covers first limit written budget tree) (le : written ≤ more) :
    Covers first limit more budget tree :=
  { covers with atMost := Nat.le_trans covers.atMost (Nat.add_le_add_left le _) }

/-- Style attributes come without the budget. -/
theorem Covers.inlined (covers : Covers first limit written budget tree)
    (inlined : Tree.Inlined tree after more) :
    Covers first limit (written + more) budget after where
  forest := inlined.forest
  budgetLimit := covers.budgetLimit
  kept found := inlined.customStyle?.trans (covers.kept found)
  within := by rw [inlined.stylesheetSize]; exact covers.within
  located known := by
    rw [inlined.customStyle?, inlined.stylesheetSize]
    exact covers.located known
  atLeast := Nat.le_trans covers.atLeast inlined.kept
  atMost := by
    have before := covers.atMost
    have grown := inlined.grown
    omega

/-- Where a stylesheet has to be created, the first document has no style attributes. -/
theorem Covers.bare (covers : Covers first limit written budget tree)
    (counted : first.uncounted = 0) (absent : tree.customStyle? = none) :
    first.inlineStyleSize = 0 := by
  unfold Tree.uncounted at counted
  split at counted
  next present =>
    obtain ⟨style, found⟩ := Option.isSome_iff_exists.mp present
    rw [covers.kept found] at absent
    exact absurd absent (by simp)
  next => exact counted

/-- Rules are charged to the stylesheet that is present. -/
theorem Located.eq_of_present {style other : NodeId} {middle : Tree}
    (located : Located budget tree style middle)
    (atHand : ∀ {style}, budget.style? = some style → tree.customStyle? = some style)
    (present : tree.customStyle? = some other) : other = style := by
  cases located with
  | known known => exact Option.some.inj (present.symm.trans (atHand known))
  | found _ found => exact Option.some.inj (present.symm.trans found)
  | created _ absent => exact absurd (present.symm.trans absent) (by simp)

/-- The count to which rules are added covers the stylesheet. -/
theorem Covers.counted (covers : Covers first limit written budget tree)
    (counted : first.uncounted = 0) {style : NodeId} {middle : Tree}
    (located : Located budget tree style middle) :
    tree.stylesheetSize + first.inlineStyleSize ≤ budget.counted tree := by
  cases located with
  | known known =>
      rw [counted_of_style? known]
      exact (covers.located known).2
  | found missing present =>
      rw [counted_of_found missing present, Tree.authorStyleSize]
      exact Nat.le_trans (Nat.add_le_add_left covers.atLeast _) (Nat.le_max_right _ _)
  | created _ absent _ =>
      rw [Tree.stylesheetSize_of_none absent, covers.bare counted absent]
      exact Nat.zero_le _

/-- One addition. -/
theorem Covers.add (covers : Covers first limit written budget tree)
    (counted : first.uncounted = 0) (css : String) :
    Covers first limit written (budget.add tree css).budget (budget.add tree css).tree := by
  have outcome := add_outcome budget tree css
  cases refused : (budget.add tree css).refusal? with
  | some reason =>
      have isRefused : (budget.add tree css).refusal?.isSome = true := by rw [refused]; rfl
      rw [outcome.tree_of_refused isRefused]
      rcases budget_of_refused isRefused with same | ⟨style, missing, present, later⟩
      · rw [same]
        exact covers
      · have count := covers.counted counted (.found missing present)
        rw [counted_of_found missing present] at count
        rw [later]
        refine { covers with budgetLimit := covers.budgetLimit, located := ?_ }
        rintro other ⟨⟩
        exact ⟨present, count⟩
  | none =>
      generalize budget.add tree css = result at outcome refused
      cases outcome with
      | exceeded => exact absurd refused (by simp)
      | headless => exact absurd refused (by simp)
      | @charged style middle located fits =>
          have charged := located.charged covers.forest (fun known => (covers.located known).1) css
          have count := covers.counted counted located
          have inLimit := Nat.le_trans fits covers.budgetLimit
          refine
            { forest := charged.forest
              budgetLimit := covers.budgetLimit
              kept := fun found => ?_
              within := ?_
              located := ?_
              atLeast := by rw [charged.inlineStyleSize]; exact covers.atLeast
              atMost := by rw [charged.inlineStyleSize]; exact covers.atMost }
          · rw [located.eq_of_present (fun known => (covers.located known).1) (covers.kept found)]
            exact charged.customStyle?
          · rw [charged.stylesheetSize]
            omega
          · rintro other ⟨⟩
            refine ⟨charged.customStyle?, ?_⟩
            rw [charged.stylesheetSize]
            dsimp only
            omega

end Covers

end Budget

end FirstPaint
