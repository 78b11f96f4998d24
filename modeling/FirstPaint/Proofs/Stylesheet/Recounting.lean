import FirstPaint.Proofs.Stylesheet.Measuring

/-!
# The count of a budget against what is measured

A budget counts the bytes that it adds, and the document is measured anew each time. A
budget that finds a stylesheet starts from what is measured, and from then on both grow
alike. A budget that creates one starts from nothing, whatever style attributes the body
has: these bytes are never counted (`Tree.uncounted`).

So along a run without other edits, what is measured after an accepted addition is the
count and the uncounted bytes (`measured_run`). It is the count itself exactly if the
document started with a custom stylesheet or without style attributes. In any other
document it can pass the limit (`measured_past_limit`).

The argument does not ask that styles hold nothing but text. An addition is one of the two
edits whose sizes are known, to the stylesheet that is found first.
-/

set_option autoImplicit false

namespace FirstPaint

/-- Bytes of author styles that a fresh budget does not count: the style attributes, if a
stylesheet has to be created. -/
def Tree.uncounted (tree : Tree) : Nat :=
  if tree.customStyle?.isSome then 0 else tree.inlineStyleSize

theorem Tree.uncounted_eq_zero_iff {tree : Tree} :
    tree.uncounted = 0 ↔ tree.customStyle?.isSome = true ∨ tree.inlineStyleSize = 0 := by
  unfold uncounted
  split
  next present => simp [present]
  next absent => simp [absent]

namespace Budget

section One

variable {budget : Budget} {tree middle : Tree} {css : String} {style : NodeId}

/-- A budget after a refusal: as it was, unless it has found a stylesheet that leaves too
little. -/
theorem budget_of_refused (refused : (budget.add tree css).refusal?.isSome = true) :
    (budget.add tree css).budget = budget ∨
      ∃ style, budget.style? = none ∧ tree.customStyle? = some style ∧
        (budget.add tree css).budget =
          { budget with style? := some style, used := max budget.used tree.authorStyleSize } := by
  have charged : ∀ {later : Budget} {tree : Tree} {style : NodeId},
      (later.charge tree style css).refusal?.isSome = true →
        (later.charge tree style css).budget = later := by
    intro later tree style refused
    unfold charge at refused ⊢
    split
    next => rfl
    next fits => simp [fits] at refused
  unfold add at refused ⊢
  cases first : budget.refusal? css.utf8ByteSize with
  | some reason => exact .inl rfl
  | none =>
      simp only [first] at refused ⊢
      cases known : budget.style? with
      | some style =>
          simp only [known] at refused ⊢
          exact .inl (charged refused)
      | none =>
          simp only [known] at refused ⊢
          cases present : tree.customStyle? with
          | some style =>
              simp only [locate, present] at refused ⊢
              exact .inr ⟨style, trivial, rfl, charged refused⟩
          | none =>
              cases headFound : tree.head? with
              | none =>
                  simp only [locate, present, headFound]
                  exact .inl trivial
              | some head =>
                  simp only [locate, present, headFound] at refused
                  -- The count is what it was, so the second check passes like the first.
                  have again : Budget.refusal? { budget with style? := some tree.size }
                      css.utf8ByteSize = none := first
                  have name : (tree.createElement "style" [(customStyleMarker, "")]).1 =
                      tree.size := rfl
                  rw [name, charge_of_fits again] at refused
                  exact absurd refused (by simp)

/-- Rules are charged to the stylesheet that is found, before and after. -/
theorem Located.charged (located : Located budget tree style middle) (forest : tree.Forest)
    (found : ∀ {style}, budget.style? = some style → tree.customStyle? = some style)
    (css : String) :
    Tree.Charged tree (middle.appendText style css) style css.utf8ByteSize := by
  have text : ∀ {tree : Tree}, tree.Forest → tree.customStyle? = some style →
      Tree.Charged tree (tree.appendText style css) style css.utf8ByteSize := by
    intro tree forest present
    have inside := (forest.isCustomStyle_of_customStyle? present).lt_size
    exact (forest.textAdded inside css).charged forest present
  cases located with
  | known known => exact text forest (found known)
  | found _ present => exact text forest present
  | created _ absent headFound =>
      have inside := Tree.lt_size_of_isTagged (Tree.isTagged_of_head? headFound)
      have created := (forest.inserted inside styleKind).charged forest headFound absent
      have both := created.trans (text created.forest created.customStyle?)
      rwa [Nat.zero_add] at both

end One

/-! ## Runs -/

/-- How the count of a budget agrees with what is measured. Until a stylesheet is at hand,
nothing has been counted. -/
structure Agrees (uncounted : Nat) (budget : Budget) (tree : Tree) : Prop where
  forest : tree.Forest
  located : ∀ {style}, budget.style? = some style →
    tree.customStyle? = some style ∧ tree.authorStyleSize = budget.used + uncounted
  missing : budget.style? = none → budget.used = 0 ∧ uncounted = tree.uncounted

section Runs

variable {budget : Budget} {tree : Tree} {uncounted : Nat}

/-- The count to which rules are added, together with the uncounted bytes, is what is
measured before they are added. -/
theorem Agrees.authorStyleSize_eq (agrees : Agrees uncounted budget tree) {style : NodeId}
    {middle : Tree} (located : Located budget tree style middle) :
    tree.authorStyleSize = budget.counted tree + uncounted := by
  cases located with
  | known known => rw [counted_of_style? known, (agrees.located known).2]
  | found missing present =>
      obtain ⟨used, rfl⟩ := agrees.missing missing
      rw [counted_of_found missing present, used, Nat.zero_max, Tree.uncounted, present]
      rfl
  | created missing absent _ =>
      obtain ⟨used, rfl⟩ := agrees.missing missing
      rw [counted_of_absent absent, used, Nat.zero_add, Tree.uncounted, absent,
        Tree.authorStyleSize, Tree.stylesheetSize_of_none absent, Nat.zero_add]
      rfl

/-- One addition keeps count and measure together. -/
theorem Agrees.add (agrees : Agrees uncounted budget tree) (css : String) :
    Agrees uncounted (budget.add tree css).budget (budget.add tree css).tree := by
  have outcome := add_outcome budget tree css
  cases refused : (budget.add tree css).refusal? with
  | some reason =>
      have isRefused : (budget.add tree css).refusal?.isSome = true := by rw [refused]; rfl
      rw [outcome.tree_of_refused isRefused]
      rcases budget_of_refused isRefused with same | ⟨style, missing, present, later⟩
      · rw [same]
        exact agrees
      · have size := agrees.authorStyleSize_eq (.found missing present)
        rw [counted_of_found missing present] at size
        rw [later]
        refine ⟨agrees.forest, ?_, fun none => absurd none (by simp)⟩
        rintro other ⟨⟩
        exact ⟨present, size⟩
  | none =>
      generalize budget.add tree css = result at outcome refused
      cases outcome with
      | exceeded => exact absurd refused (by simp)
      | headless => exact absurd refused (by simp)
      | @charged style middle located fits =>
          have charged := located.charged agrees.forest (fun known => (agrees.located known).1) css
          have size := agrees.authorStyleSize_eq located
          refine ⟨charged.forest, ?_, fun none => absurd none (by simp)⟩
          rintro other ⟨⟩
          refine ⟨charged.customStyle?, ?_⟩
          rw [Tree.authorStyleSize] at size ⊢
          rw [charged.stylesheetSize, charged.inlineStyleSize]
          dsimp only
          omega

theorem Agrees.addAll (agrees : Agrees uncounted budget tree) (rules : List String) :
    Agrees uncounted (budget.addAll tree rules).1 (budget.addAll tree rules).2 := by
  induction rules generalizing budget tree with
  | nil => exact agrees
  | cons css rest ih => exact ih (agrees.add css)

/-- **The count of a run against what is measured.** Rules are added one after another with
a fresh budget. After each accepted addition the author styles that are measured are the
count, which keeps the limit, and the style attributes that the document had at the start
if it had no custom stylesheet then. So what is measured is the count exactly if there was
a custom stylesheet at the start or there were no style attributes. -/
theorem measured_run (reachable : tree.Reachable) (limit : Nat) (earlier : List String)
    (css : String) :
    let before := Budget.addAll { limit } tree earlier
    let result := before.1.add before.2 css
    result.refusal? = none →
      result.tree.authorStyleSize = result.budget.used + tree.uncounted ∧
        result.budget.used ≤ limit ∧
        (result.tree.authorStyleSize = result.budget.used ↔
          tree.customStyle?.isSome = true ∨ tree.inlineStyleSize = 0) := by
  intro before result accepted
  have start : Agrees tree.uncounted { limit } tree :=
    ⟨reachable.forest, fun known => absurd known (by simp), fun _ => ⟨rfl, rfl⟩⟩
  have agrees : Agrees tree.uncounted result.budget result.tree := (start.addAll earlier).add css
  have kept : before.1.limit = limit := (addAll_continues { limit } tree earlier).limit
  have outcome : Outcome before.1 before.2 css result := add_outcome _ _ css
  have counts : (∃ style, result.budget.style? = some style) ∧ result.budget.used ≤ limit := by
    clear_value result
    cases outcome with
    | exceeded => exact absurd accepted (by simp)
    | headless => exact absurd accepted (by simp)
    | @charged style _ _ fits => exact ⟨⟨style, rfl⟩, by rw [← kept]; exact fits⟩
  obtain ⟨⟨style, known⟩, within⟩ := counts
  have size := (agrees.located known).2
  refine ⟨size, within, ?_⟩
  rw [size, ← Tree.uncounted_eq_zero_iff, Nat.add_eq_left]

end Runs

/-- A document without a custom stylesheet in which a style attribute holds nine bytes. -/
def inlineStyledTree : Tree :=
  Tree.built [.createElement "html" [], .append Tree.root 1, .createElement "head" [], .append 1 2,
    .createElement "body" [], .append 1 3, .createElement "div" [("style", "color:red")],
    .append 3 4]

/-- The style attribute is not counted, so three bytes are accepted under a limit of five
and twelve are measured. -/
theorem measured_run_inlineStyledTree :
    let result := Budget.add { limit := 5 } inlineStyledTree "a\x7b\x7d"
    result.refusal? = none ∧ result.budget.used = 3 ∧
      result.tree.authorStyleSize = 3 + inlineStyledTree.uncounted ∧
      inlineStyledTree.uncounted = 9 := by
  intro result
  have reachable : inlineStyledTree.Reachable := by
    unfold inlineStyledTree
    exact Tree.reachable_built (by decide +kernel)
  have accepted : result.refusal? = none := by decide +kernel
  have used : result.budget.used = 3 := by decide +kernel
  obtain ⟨size, -⟩ := measured_run reachable 5 [] "a\x7b\x7d" accepted
  exact ⟨accepted, used, used ▸ size, by decide +kernel⟩

/-- An accepted addition can leave a document whose author styles are not the count and pass
the limit. -/
theorem measured_past_limit :
    ¬ ∀ (tree : Tree) (limit : Nat) (css : String), tree.Reachable →
      (Budget.add { limit } tree css).refusal? = none →
        (Budget.add { limit } tree css).tree.authorStyleSize =
          (Budget.add { limit } tree css).budget.used ∧
        (Budget.add { limit } tree css).tree.authorStyleSize ≤ limit := by
  intro claim
  have reachable : inlineStyledTree.Reachable := by
    unfold inlineStyledTree
    exact Tree.reachable_built (by decide +kernel)
  obtain ⟨-, within⟩ := claim inlineStyledTree 5 "a\x7b\x7d" reachable (by decide +kernel)
  exact absurd within (by decide +kernel)

end Budget

end FirstPaint
