import FirstPaint.Proofs.Document.Adding
import FirstPaint.Proofs.Document.Calls
import FirstPaint.Proofs.Pass.Visiting

/-!
# Additions one after another

Rules are added to the custom stylesheet under a limit, again and again, with one budget
and nothing in between. What a single addition can do is said once (`Budget.Outcome`):
either it is refused and the document stays as it is, or the rules are charged to a
stylesheet that was at hand, has been found, or has been created.

The limit is checked a second time after the stylesheet has been located. Only a
stylesheet that was found raises the count in between; where one is created, the second
check repeats the first. That is why a refusal never leaves a new stylesheet behind.

A run keeps a document in which styles hold nothing but text, and a budget whose
stylesheet is one of the head (`Budget.Sound`). From this the accounts of every run
follow (`budget_run`).
-/

set_option autoImplicit false

namespace FirstPaint

namespace Tree

/-! ## Styles that hold text -/

/-- The children of the node are texts without children. -/
def HoldsOnlyText (tree : Tree) (id : NodeId) : Prop :=
  ∀ child ∈ tree.children id, (tree.text? child).isSome = true ∧ tree.children child = []

/-- Style elements hold nothing but text. -/
def StylesHoldText (tree : Tree) : Prop :=
  ∀ style, tree.isTagged style "style" = true → tree.HoldsOnlyText style

instance (tree : Tree) (id : NodeId) : Decidable (tree.HoldsOnlyText id) :=
  inferInstanceAs (Decidable (∀ child ∈ tree.children id,
    (tree.text? child).isSome = true ∧ tree.children child = []))

/-- Styles are in the store, so they can be looked through. -/
theorem stylesHoldText_iff {tree : Tree} :
    (∀ style < tree.size, tree.isTagged style "style" = true → tree.HoldsOnlyText style) ↔
      tree.StylesHoldText :=
  ⟨fun inside style tagged => inside style (lt_size_of_isTagged tagged) tagged,
    fun texts style _ => texts style⟩

instance (tree : Tree) : Decidable tree.StylesHoldText := decidable_of_iff _ stylesHoldText_iff

section Styles

variable {before after : Tree} {id parent : NodeId} {kind : NodeKind} {more : String}

theorem ne_of_text? {holder child : NodeId} (isElement : (before.element? holder).isSome = true)
    (isText : (before.text? child).isSome = true) : child ≠ holder := by
  rintro rfl
  obtain ⟨element, found⟩ := Option.isSome_iff_exists.mp isElement
  simp [text?, element?_eq_some_iff.mp found] at isText

theorem Inserted.holdsOnlyText (inserted : Inserted before after parent kind)
    (forest : before.Forest) (isElement : (before.element? parent).isSome = true)
    (allowed : id = parent → ∃ data, kind = .text data) (holds : before.HoldsOnlyText id) :
    after.HoldsOnlyText id := by
  have old : ∀ child ∈ before.children id,
      (after.text? child).isSome = true ∧ after.children child = [] := by
    intro child member
    obtain ⟨isText, childless⟩ := holds child member
    constructor
    · rwa [Tree.text?, inserted.kind?_old (forest.child_lt member)]
    · rwa [inserted.children, if_neg (ne_of_text? isElement isText)]
  intro child member
  rw [inserted.children] at member
  split at member
  next same =>
    rcases List.mem_append.mp member with earlier | new
    · exact old child (same ▸ earlier)
    · obtain ⟨data, isText⟩ := allowed same
      rw [List.mem_singleton.mp new]
      refine ⟨?_, inserted.children_new⟩
      rw [Tree.text?, inserted.kind?_new, isText]
      rfl
  next => exact old child member

theorem Inserted.stylesHoldText (inserted : Inserted before after parent kind)
    (forest : before.Forest) (isElement : (before.element? parent).isSome = true)
    (allowed : before.isTagged parent "style" = true → ∃ data, kind = .text data)
    (texts : before.StylesHoldText) : after.StylesHoldText := by
  intro style tagged
  by_cases isNew : style = before.size
  · intro child member
    rw [isNew, inserted.children_new] at member
    exact absurd member (by simp)
  · have same : after.kind? style = before.kind? style := by rw [inserted.kind?, if_neg isNew]
    rw [isTagged_congr (tag?_congr same)] at tagged
    refine inserted.holdsOnlyText forest isElement ?_ (texts style tagged)
    rintro rfl
    exact allowed tagged

theorem Lengthened.stylesHoldText (lengthened : Lengthened before after id more)
    (texts : before.StylesHoldText) : after.StylesHoldText := by
  obtain ⟨data, found, grown⟩ := lengthened.text?
  have tags : ∀ other, after.isTagged other "style" = before.isTagged other "style" := by
    intro other
    by_cases same : other = id
    · subst same
      simp only [isTagged, tag?, element?, text?_eq_some_iff.mp found,
        text?_eq_some_iff.mp grown]
    · exact isTagged_congr (tag?_congr (lengthened.kind? other same)) "style"
  intro style tagged child member
  rw [tags] at tagged
  rw [lengthened.children] at member
  obtain ⟨isText, childless⟩ := texts style tagged child member
  constructor
  · by_cases same : child = id
    · rw [same, grown]
      rfl
    · rwa [Tree.text?, lengthened.kind? child same]
  · rwa [lengthened.children]

/-- Text that is added to a style keeps the styles as they should be. -/
theorem TextAdded.stylesHoldText (added : TextAdded before after id more)
    (forest : before.Forest) (isElement : (before.element? id).isSome = true)
    (texts : before.StylesHoldText) : after.StylesHoldText := by
  cases added with
  | lengthened _ lengthened => exact lengthened.stylesHoldText texts
  | inserted _ inserted =>
      exact inserted.stylesHoldText forest isElement (fun _ => ⟨more, rfl⟩) texts

/-- No stylesheet is found exactly if the head has none. -/
theorem Forest.customStyle?_eq_none_iff {tree : Tree} (forest : tree.Forest) :
    tree.customStyle? = none ↔ ¬ ∃ style, tree.IsCustomStyle style := by
  constructor
  · rintro none ⟨style, head, headFound, below, marked⟩
    have absent := none
    rw [customStyle?, headFound, Option.bind_eq_bind, Option.bind_some,
      List.find?_eq_none] at absent
    exact absent style (forest.mem_descendants_iff.mpr below) (by simpa using marked)
  · intro absent
    cases found : tree.customStyle? with
    | none => rfl
    | some style => exact absurd ⟨style, forest.isCustomStyle_of_customStyle? found⟩ absent

end Styles

end Tree

namespace Budget

/-- What a stylesheet is created as. -/
def styleKind : NodeKind := .element (Element.ofPairs "style" [(customStyleMarker, "")])

/-! ## What an addition can do -/

/-- The count to which rules are added: a stylesheet that will be found raises it to what
the document carries. -/
def counted (budget : Budget) (tree : Tree) : Nat :=
  match budget.style?, tree.customStyle? with
  | none, some _ => max budget.used tree.authorStyleSize
  | _, _ => budget.used

theorem used_le_counted (budget : Budget) (tree : Tree) : budget.used ≤ budget.counted tree := by
  unfold counted
  split
  next => exact Nat.le_max_left _ _
  next => exact Nat.le_refl _

/-- The stylesheet to which rules are charged, in the document that holds it. -/
inductive Located (budget : Budget) (tree : Tree) : NodeId → Tree → Prop where
  | known {style : NodeId} (known : budget.style? = some style) : Located budget tree style tree
  | found {style : NodeId} (missing : budget.style? = none)
      (present : tree.customStyle? = some style) : Located budget tree style tree
  | created {head : NodeId} (missing : budget.style? = none) (absent : tree.customStyle? = none)
      (headFound : tree.head? = some head) :
      Located budget tree tree.size ((tree.create styleKind).2.append head tree.size)

/-- What becomes of a budget and a document when rules are added. -/
inductive Outcome (budget : Budget) (tree : Tree) (css : String) : BudgetResult → Prop where
  /-- The rules would pass the limit. The stylesheet may have been found. -/
  | exceeded {later : Budget} (limit : later.limit = budget.limit)
      (used : budget.used ≤ later.used) (counts : later.used ≤ budget.counted tree)
      (passed : budget.limit < later.used + css.utf8ByteSize)
      (style : later.style? = budget.style? ∨
        budget.style? = none ∧ later.style? = tree.customStyle?) :
      Outcome budget tree css
        { refusal? := some (.exceeded later.used css.utf8ByteSize budget.limit)
          budget := later
          tree }
  /-- There is nothing that could hold a stylesheet. -/
  | headless (missing : budget.style? = none) (absent : tree.head? = none) :
      Outcome budget tree css { refusal? := some .missingHead, budget, tree }
  /-- The rules are added. -/
  | charged {style : NodeId} {middle : Tree} (located : Located budget tree style middle)
      (fits : budget.counted tree + css.utf8ByteSize ≤ budget.limit) :
      Outcome budget tree css
        { budget :=
            { limit := budget.limit
              used := budget.counted tree + css.utf8ByteSize
              style? := some style }
          tree := middle.appendText style css }

section Outcome

variable {budget : Budget} {tree : Tree} {css : String}

theorem counted_of_style? {style : NodeId} (known : budget.style? = some style) :
    budget.counted tree = budget.used := by
  simp only [counted, known]

theorem counted_of_absent (absent : tree.customStyle? = none) :
    budget.counted tree = budget.used := by
  unfold counted
  split
  next found => exact absurd (absent.symm.trans found) (by simp)
  next => rfl

theorem counted_of_found {style : NodeId} (missing : budget.style? = none)
    (present : tree.customStyle? = some style) :
    budget.counted tree = max budget.used tree.authorStyleSize := by
  simp only [counted, missing, present]

theorem refusal?_eq_none_iff {addition : Nat} :
    budget.refusal? addition = none ↔ budget.used + addition ≤ budget.limit := by
  unfold refusal?
  split
  next passed => exact ⟨fun none => absurd none (by simp), fun fits => by omega⟩
  next => exact ⟨fun _ => by omega, fun _ => rfl⟩

theorem eq_exceeded_of_refusal? {addition : Nat} {reason : BudgetError}
    (refused : budget.refusal? addition = some reason) :
    budget.limit < budget.used + addition ∧
      reason = .exceeded budget.used addition budget.limit := by
  unfold refusal? at refused
  split at refused
  next passed => exact ⟨passed, (Option.some.inj refused).symm⟩
  next => exact absurd refused (by simp)

theorem charge_of_fits {style : NodeId}
    (fits : budget.refusal? css.utf8ByteSize = none) :
    budget.charge tree style css =
      { budget := { budget with used := budget.used + css.utf8ByteSize }
        tree := tree.appendText style css } := by
  simp only [charge, fits]

/-- What an addition does with a stylesheet that is in the document: it charges the
count that the stylesheet brings, or refuses. -/
theorem charge_outcome {later : Budget} {style : NodeId}
    (located : Located budget tree style tree) (limit : later.limit = budget.limit)
    (used : later.used = budget.counted tree) (atHand : later.style? = some style)
    (origin : later.style? = budget.style? ∨
      budget.style? = none ∧ later.style? = tree.customStyle?) :
    Outcome budget tree css (later.charge tree style css) := by
  cases check : later.refusal? css.utf8ByteSize with
  | some reason =>
      obtain ⟨passed, rfl⟩ := eq_exceeded_of_refusal? check
      rw [charge, check, limit]
      rw [limit] at passed
      refine .exceeded limit ?_ (Nat.le_of_eq used) passed origin
      rw [used]
      exact used_le_counted budget tree
  | none =>
      have fits := refusal?_eq_none_iff.mp check
      rw [limit, used] at fits
      rw [charge_of_fits check]
      obtain ⟨laterLimit, laterUsed, laterStyle⟩ := later
      cases limit
      cases used
      cases atHand
      exact .charged located fits

/-- **What an addition can do.** -/
theorem add_outcome (budget : Budget) (tree : Tree) (css : String) :
    Outcome budget tree css (budget.add tree css) := by
  unfold add
  cases first : budget.refusal? css.utf8ByteSize with
  | some reason =>
      obtain ⟨passed, rfl⟩ := eq_exceeded_of_refusal? first
      exact .exceeded rfl (Nat.le_refl _) (used_le_counted budget tree) passed (.inl rfl)
  | none =>
      dsimp only
      cases known : budget.style? with
      | some style =>
          exact charge_outcome (.known known) rfl (counted_of_style? known).symm known (.inl rfl)
      | none =>
          cases present : tree.customStyle? with
          | some style =>
              simp only [locate, present]
              exact charge_outcome (.found known present) rfl
                (counted_of_found known present).symm rfl (.inr ⟨known, present.symm⟩)
          | none =>
              cases headFound : tree.head? with
              | none =>
                  simp only [locate, present, headFound]
                  exact .headless known headFound
              | some head =>
                  simp only [locate, present, headFound]
                  -- The count is what it was, so the second check passes like the first.
                  have again : Budget.refusal? { budget with style? := some tree.size }
                      css.utf8ByteSize = none := first
                  have name : (tree.createElement "style" [(customStyleMarker, "")]).1 =
                      tree.size := rfl
                  rw [name, charge_of_fits again]
                  have counts : budget.counted tree = budget.used := counted_of_absent present
                  have fits := refusal?_eq_none_iff.mp first
                  rw [← counts] at fits ⊢
                  exact .charged (.created known present headFound) fits

end Outcome

/-! ## One addition -/

/-- A budget that comes after another. -/
structure Continues (budget later : Budget) : Prop where
  limit : later.limit = budget.limit
  used : budget.used ≤ later.used
  style? : ∀ {style}, budget.style? = some style → later.style? = some style

theorem Continues.refl (budget : Budget) : Continues budget budget where
  limit := rfl
  used := Nat.le_refl _
  style? known := known

theorem Continues.trans {budget later last : Budget} (earlier : Continues budget later)
    (next : Continues later last) : Continues budget last where
  limit := next.limit.trans earlier.limit
  used := Nat.le_trans earlier.used next.used
  style? known := next.style? (earlier.style? known)

/-- A document in which styles hold text only, with a budget whose stylesheet is one of
the head. -/
structure Sound (budget : Budget) (tree : Tree) : Prop where
  forest : tree.Forest
  texts : tree.StylesHoldText
  settled : budget.Settled tree

/-- What an accepted addition comes to. -/
structure Accepted (budget : Budget) (tree : Tree) (css : String) (result : BudgetResult)
    (style : NodeId) : Prop where
  /-- The stylesheet is recorded. -/
  style? : result.budget.style? = some style
  /-- The limit is kept. -/
  within : result.budget.used ≤ budget.limit
  /-- The rules are counted by their bytes. -/
  used : result.budget.used = budget.counted tree + css.utf8ByteSize
  /-- The rules follow what the stylesheet held. -/
  content : result.tree.textContent style = tree.textContent style ++ css
  /-- The stylesheet is one of the head, or the head had none and a new one is its last
  child. The text is all that has been added otherwise. -/
  changes :
    tree.IsCustomStyle style ∧ Tree.TextAdded tree result.tree style css ∨
      (¬ ∃ other, tree.IsCustomStyle other) ∧ style = tree.size ∧
        ∃ head middle, tree.head? = some head ∧ Tree.Inserted tree middle head styleKind ∧
          Tree.TextAdded middle result.tree style css

section One

variable {budget : Budget} {tree middle : Tree} {css : String} {result : BudgetResult}
  {style : NodeId}

theorem Outcome.continues (outcome : Outcome budget tree css result) :
    Continues budget result.budget := by
  cases outcome with
  | exceeded limit used _ _ style =>
      refine ⟨limit, used, fun known => ?_⟩
      rcases style with same | ⟨missing, -⟩
      · exact same.trans known
      · exact absurd (missing.symm.trans known) (by simp)
  | headless => exact .refl budget
  | charged located =>
      refine ⟨rfl, Nat.le_trans (used_le_counted budget tree) (Nat.le_add_right _ _), ?_⟩
      intro other known
      cases located with
      | known same => exact same.symm.trans known
      | found missing => exact absurd (missing.symm.trans known) (by simp)
      | created missing => exact absurd (missing.symm.trans known) (by simp)

/-- A refusal leaves the document as it was. -/
theorem Outcome.tree_of_refused (outcome : Outcome budget tree css result)
    (refused : result.refusal?.isSome = true) : result.tree = tree := by
  cases outcome with
  | exceeded => rfl
  | headless => rfl
  | charged => exact absurd refused (by simp)

/-- Rules are charged to a stylesheet of the head, or to a new one that has become the
last child of a head without any. -/
theorem Located.origin (located : Located budget tree style middle) (sound : Sound budget tree) :
    tree.IsCustomStyle style ∧ middle = tree ∨
      (¬ ∃ other, tree.IsCustomStyle other) ∧ style = tree.size ∧
        ∃ head, tree.head? = some head ∧ Tree.Inserted tree middle head styleKind := by
  cases located with
  | known known => exact .inl ⟨sound.settled style known, rfl⟩
  | found _ present => exact .inl ⟨sound.forest.isCustomStyle_of_customStyle? present, rfl⟩
  | created _ absent headFound =>
      obtain ⟨_, -, link⟩ := sound.forest.exists_html_of_head? headFound
      have inside := Tree.lt_size_of_parent? link
      exact .inr ⟨sound.forest.customStyle?_eq_none_iff.mp absent, rfl, _, headFound,
        sound.forest.inserted inside styleKind⟩

/-- The stylesheet that is charged is a style element, and styles still hold text only. -/
theorem Located.ready (located : Located budget tree style middle) (sound : Sound budget tree) :
    middle.Forest ∧ middle.StylesHoldText ∧ middle.isTagged style "style" = true := by
  rcases located.origin sound with ⟨custom, rfl⟩ | ⟨_, rfl, head, headFound, inserted⟩
  · exact ⟨sound.forest, sound.texts, custom.isTagged⟩
  · have isHead := Tree.isTagged_of_head? headFound
    have noStyle : tree.isTagged head "style" = false :=
      Tree.isTagged_eq_false_of_isTagged isHead (by with_unfolding_all decide)
    refine ⟨inserted.forest, ?_, ?_⟩
    · refine inserted.stylesHoldText sound.forest (Tree.isSome_element?_of_isTagged isHead) ?_
        sound.texts
      intro isStyle
      exact absurd (noStyle.symm.trans isStyle) (by simp)
    · simp only [Tree.isTagged, Tree.tag?, Tree.element?_eq_some_iff.mpr inserted.kind?_new]
      with_unfolding_all decide

/-- What a stylesheet holds is the same once it has been located. A new one is empty. -/
theorem Located.textContent (located : Located budget tree style middle)
    (sound : Sound budget tree) : middle.textContent style = tree.textContent style := by
  rcases located.origin sound with ⟨_, rfl⟩ | ⟨_, rfl, head, headFound, inserted⟩
  · rfl
  · have new : middle.textContent tree.size = "" := by
      refine Tree.textContent_of_childless inserted.forest inserted.children_new ?_
      have isElement := Tree.element?_eq_some_iff.mpr inserted.kind?_new
      exact Tree.characterData?_of_element? (Option.isSome_iff_exists.mpr ⟨_, isElement⟩)
    have missing : tree.textContent tree.size = "" := by
      refine Tree.textContent_of_childless sound.forest
        (Tree.children_of_size_le (Nat.le_refl _)) ?_
      rw [Tree.characterData?, Tree.kind?_of_size_le (Nat.le_refl _)]
    rw [new, missing]

/-- Rules are added as text at the end of a style element that holds texts. -/
theorem Located.textAdded (located : Located budget tree style middle) (sound : Sound budget tree)
    (css : String) :
    Tree.TextAdded middle (middle.appendText style css) style css ∧
      (middle.appendText style css).textContent style = tree.textContent style ++ css := by
  obtain ⟨forest, texts, tagged⟩ := located.ready sound
  have added := forest.textAdded (Tree.lt_size_of_isTagged tagged) css
  refine ⟨added, ?_⟩
  rw [← located.textContent sound]
  refine added.textContent forest (Tree.isSome_element?_of_isTagged tagged) ?_
  intro last isLast _
  exact (texts style tagged last (List.mem_of_getLast? isLast)).2

/-- An addition without a refusal has been accepted. -/
theorem Outcome.accepted (outcome : Outcome budget tree css result) (sound : Sound budget tree)
    (allowed : result.refusal? = none) : ∃ style, Accepted budget tree css result style := by
  cases outcome with
  | exceeded => exact absurd allowed (by simp)
  | headless => exact absurd allowed (by simp)
  | @charged style middle located fits =>
      obtain ⟨added, content⟩ := located.textAdded sound css
      refine ⟨style, rfl, fits, rfl, content, ?_⟩
      rcases located.origin sound with ⟨custom, rfl⟩ | ⟨absent, isNew, head, headFound, inserted⟩
      · exact .inl ⟨custom, added⟩
      · exact .inr ⟨absent, isNew, head, middle, headFound, inserted, added⟩

/-- Rules are accepted exactly if they fit and there is a stylesheet or a head for one. -/
theorem Outcome.refusal?_eq_none_iff (outcome : Outcome budget tree css result) :
    result.refusal? = none ↔ budget.counted tree + css.utf8ByteSize ≤ budget.limit ∧
      (budget.style?.isSome = true ∨ tree.head?.isSome = true) := by
  cases outcome with
  | exceeded _ _ counts passed =>
      refine ⟨fun allowed => absurd allowed (by simp), ?_⟩
      rintro ⟨fits, -⟩
      omega
  | headless missing absent => simp [missing, absent]
  | charged located fits =>
      refine ⟨fun _ => ⟨fits, ?_⟩, fun _ => rfl⟩
      cases located with
      | known known => exact .inl (by rw [known]; rfl)
      | found _ present =>
          obtain ⟨head, headFound, -⟩ := Option.bind_eq_some_iff.mp present
          exact .inr (by rw [headFound]; rfl)
      | created _ _ headFound => exact .inr (by rw [headFound]; rfl)

/-- One addition keeps document and budget sound. -/
theorem Sound.add (sound : Sound budget tree) (css : String) :
    Sound (budget.add tree css).budget (budget.add tree css).tree := by
  have outcome := add_outcome budget tree css
  have settled : (budget.add tree css).budget.Settled (budget.add tree css).tree := by
    cases found : tree.html? with
    | some html => exact (add_lands (sound.forest.site found) sound.settled css).settled
    | none =>
        -- Without an html element there is no head, and so no stylesheet is at hand.
        have headless : tree.head? = none := by rw [Tree.head?, Tree.htmlChild?, found]; rfl
        have noStyle : ¬ ∃ style, tree.IsCustomStyle style := by
          rintro ⟨_, head, headFound, -⟩
          exact absurd (headless.symm.trans headFound) (by simp)
        have missing : budget.style? = none :=
          Option.eq_none_iff_forall_ne_some.mpr fun style known =>
            noStyle ⟨style, sound.settled style known⟩
        have notFound := sound.forest.customStyle?_eq_none_iff.mpr noStyle
        generalize budget.add tree css = result at outcome
        cases outcome with
        | exceeded _ _ _ _ style => exact .of_missing (by simpa [missing, notFound] using style)
        | headless => exact sound.settled
        | charged located =>
            cases located with
            | known known => exact absurd (missing.symm.trans known) (by simp)
            | found _ present => exact absurd (notFound.symm.trans present) (by simp)
            | created _ _ headFound => exact absurd (headless.symm.trans headFound) (by simp)
  generalize budget.add tree css = result at outcome settled
  cases outcome with
  | exceeded => exact ⟨sound.forest, sound.texts, settled⟩
  | headless => exact ⟨sound.forest, sound.texts, settled⟩
  | charged located =>
      obtain ⟨forest, texts, tagged⟩ := located.ready sound
      obtain ⟨added, -⟩ := located.textAdded sound css
      exact ⟨added.forest forest,
        added.stylesHoldText forest (Tree.isSome_element?_of_isTagged tagged) texts, settled⟩

end One

/-! ## Runs -/

/-- Adds rules one after another. Refused ones are passed over. -/
def addAll (budget : Budget) (tree : Tree) : List String → Budget × Tree
  | [] => (budget, tree)
  | css :: rest => (budget.add tree css).budget.addAll (budget.add tree css).tree rest

section Runs

variable {budget : Budget} {tree : Tree}

theorem addAll_continues (budget : Budget) (tree : Tree) (rules : List String) :
    Continues budget (budget.addAll tree rules).1 := by
  induction rules generalizing budget tree with
  | nil => exact .refl budget
  | cons css rest ih => exact (add_outcome budget tree css).continues.trans (ih _ _)

theorem Sound.addAll (sound : Sound budget tree) (rules : List String) :
    Sound (budget.addAll tree rules).1 (budget.addAll tree rules).2 := by
  induction rules generalizing budget tree with
  | nil => exact sound
  | cons css rest ih => exact ih (sound.add css)

/-- **The accounts of a run.** In a document in which styles hold nothing but text, rules
are added one after another with a fresh budget. Whatever was added before, the next
rules are either accepted and land, counted by their bytes within the limit, at the end
of the stylesheet that has been at hand, has been found or has been created in the head;
or they are refused and nothing changes in the document. The count never falls, and a
stylesheet that is recorded stays the one of the budget. -/
theorem budget_run (reachable : tree.Reachable) (texts : tree.StylesHoldText) (limit : Nat)
    (earlier : List String) (css : String) (later : List String) :
    let before := Budget.addAll { limit } tree earlier
    let result := before.1.add before.2 css
    let last := result.budget.addAll result.tree later
    Continues { limit } before.1 ∧ Continues before.1 result.budget ∧
      Continues result.budget last.1 ∧
      (result.refusal? = none → ∃ style, Accepted before.1 before.2 css result style) ∧
      (result.refusal?.isSome = true → result.tree = before.2) ∧
      (result.refusal? = none ↔ before.1.counted before.2 + css.utf8ByteSize ≤ limit ∧
        (before.1.style?.isSome = true ∨ before.2.head?.isSome = true)) := by
  intro before result last
  have start : Sound { limit } tree := ⟨reachable.forest, texts, .of_missing rfl⟩
  have sound : Sound before.1 before.2 := start.addAll earlier
  have upToNow : Continues { limit } before.1 := addAll_continues _ tree earlier
  have outcome : Outcome before.1 before.2 css result := add_outcome _ _ css
  refine ⟨upToNow, outcome.continues, addAll_continues _ _ later, outcome.accepted sound,
    outcome.tree_of_refused, ?_⟩
  rw [outcome.refusal?_eq_none_iff, upToNow.limit]

end Runs

/-- A document with a custom stylesheet that holds three bytes. -/
def styledTree : Tree :=
  Tree.built [.createElement "html" [], .append Tree.root 1, .createElement "head" [], .append 1 2,
    .createElement "style" [("amp-custom", "")], .append 2 3, .appendText 3 "a\x7b\x7d"]

/-- The stylesheet is found, rules that are too long are refused, and the next ones fill
what the limit leaves. -/
theorem budget_run_styledTree :
    let before := Budget.addAll { limit := 9 } styledTree ["b\x7b\x7d", "long\x7b\x7d"]
    let result := before.1.add before.2 "c\x7b\x7d"
    styledTree.StylesHoldText ∧ before.1.used = 6 ∧ result.refusal? = none ∧
      ∃ style, Accepted before.1 before.2 "c\x7b\x7d" result style := by
  intro before result
  have reachable : styledTree.Reachable := by
    unfold styledTree
    exact Tree.reachable_built (by decide +kernel)
  have texts : styledTree.StylesHoldText := by decide +kernel
  have allowed : result.refusal? = none := by decide +kernel
  obtain ⟨-, -, -, accepted, -⟩ :=
    budget_run reachable texts 9 ["b\x7b\x7d", "long\x7b\x7d"] "c\x7b\x7d" []
  exact ⟨texts, by decide +kernel, allowed, accepted allowed⟩

end Budget

end FirstPaint
