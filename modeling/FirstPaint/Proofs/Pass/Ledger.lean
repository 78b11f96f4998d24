import FirstPaint.Proofs.Pass.StyleTexts
import Mathlib.Data.List.Induction

/-!
# The ledger of a run

A run goes through the extension elements in document order. Each of them can bring rules,
which are accepted or refused as a whole. What has been accepted is a list of elements with
their rules (`movedRules`), and the list says everything about the stylesheet at hand: its
content has grown by these rules, one after another, and the count is the bytes of these
rules on top of what the document carried when the stylesheet was taken in hand
(`Rendering.Account`).

The account holds at every turn, so whether rules are accepted depends on those accepted
before them and not on the refused ones (`Rendering.Ledger.accepted_iff`).
-/

set_option autoImplicit false

namespace FirstPaint

namespace Budget

/-- The bytes of rules, if there are any. -/
def bytes (rules? : Option String) : Nat := (rules?.getD "").utf8ByteSize

/-- How a budget goes on when rules are accepted or not, given the count that they are added
to. -/
structure Step (counted : Nat) (budget : Budget) (rules? : Option String) (later : Budget) :
    Prop where
  known : ∀ {style}, budget.style? = some style →
    later.style? = some style ∧ later.used = budget.used + bytes rules?
  /-- Without a stylesheet at hand, one is taken in hand or nothing happens. -/
  missing : budget.style? = none → later = budget ∧ rules? = none ∨
    later.style?.isSome = true ∧ later.used = counted + bytes rules?

section Step

variable {budget : Budget} {tree : Tree} {css : String} {id : NodeId}

theorem Step.refl (counted : Nat) (budget : Budget) : Step counted budget none budget where
  known known := ⟨known, rfl⟩
  missing _ := .inl ⟨rfl, rfl⟩

theorem add_step (budget : Budget) (tree : Tree) (css : String) :
    Step (budget.counted tree) budget
      (if (budget.add tree css).refusal? = none then some css else none)
      (budget.add tree css).budget := by
  cases refusal : (budget.add tree css).refusal? with
  | some reason =>
      rw [if_neg (by simp)]
      rcases budget_of_refused (by rw [refusal]; rfl) with same | ⟨style, missing, present, found⟩
      · rw [same]
        exact .refl _ budget
      · rw [found]
        exact
          { known := fun known => absurd (missing.symm.trans known) (by simp)
            missing := fun _ => .inr ⟨rfl, (counted_of_found missing present).symm⟩ }
  | none =>
      rw [if_pos rfl]
      have outcome := add_outcome budget tree css
      generalize budget.add tree css = result at outcome refusal
      cases outcome with
      | exceeded => exact absurd refusal (by simp)
      | headless => exact absurd refusal (by simp)
      | charged located =>
          refine ⟨fun known => ?_, fun _ => .inr ⟨rfl, rfl⟩⟩
          rw [counted_of_style? known]
          cases located with
          | known same => exact ⟨same.symm.trans known, rfl⟩
          | found missing => exact absurd (missing.symm.trans known) (by simp)
          | created missing => exact absurd (missing.symm.trans known) (by simp)

/-- An id makes no difference to the count. -/
theorem counted_ensureId (forest : tree.Forest) (isElement : (tree.element? id).isSome = true)
    (noStyle : tree.isTagged id "style" = false) (budget : Budget) :
    budget.counted (tree.ensureId id).2 = budget.counted tree := by
  obtain ⟨element, found⟩ := Option.isSome_iff_exists.mp isElement
  have inlined := (Tree.Rewritten.ensureId tree id).unstyled forest found
    ((Tree.isTagged_of_element? found "style").symm.trans noStyle) (attribute?_ensureId found)
  have inline : (tree.ensureId id).2.inlineStyleSize = tree.inlineStyleSize :=
    Nat.le_antisymm inlined.grown inlined.kept
  rw [counted, counted, Tree.authorStyleSize, Tree.authorStyleSize, inlined.customStyle?,
    inlined.stylesheetSize, inline]

end Step

end Budget

/-! ## What an element asks for -/

section Asking

variable {budget : Budget} {tree : Tree} {id : NodeId} {css : String}

/-- The rules that an element asks for, with the id that it has or would be given. -/
def Tree.AsksFor (tree : Tree) (id : NodeId) (css : String) : Prop :=
  ∃ element found, tree.element? id = some element ∧ element.blockingStyles = .ok found ∧
    found.all (·.style.isNothing) = false ∧ css = rulesFor found (tree.ensureId id).1

/-- An element that asks for rules gets them exactly if they can be added. -/
theorem moved_iff_of_asksFor (asks : tree.AsksFor id css) (budget : Budget) :
    ((moveToStylesheet budget tree id).problem? = none ↔
      (budget.add (tree.ensureId id).2 css).refusal? = none) ∧
    acceptedRules? budget tree id =
      if (budget.add (tree.ensureId id).2 css).refusal? = none then some css else none := by
  obtain ⟨element, found, isElement, read, something, rfl⟩ := asks
  -- What the attempt has read is what the element asks for.
  have same : ∀ {other otherFound}, tree.element? id = some other →
      other.blockingStyles = .ok otherFound → otherFound = found := by
    intro other otherFound isOther readOther
    cases isOther.symm.trans isElement
    exact Except.ok.inj (readOther.symm.trans read)
  have outcome := moveToStylesheet_outcome budget tree id
  generalize moveToStylesheet budget tree id = result at outcome
  generalize acceptedRules? budget tree id = rules? at outcome
  cases outcome with
  | unread nothing => exact absurd (by rw [isElement, Option.map_some, read]) (nothing found)
  | bare isOther readOther nothing =>
      cases same isOther readOther
      exact absurd (nothing.symm.trans something) (by simp)
  | refused isOther readOther _ refusal =>
      cases same isOther readOther
      simp [refusal]
  | accepted isOther readOther _ allowed =>
      cases same isOther readOther
      simp [allowed]

/-- Accepted rules are those of an element that asks for them and has no problem. -/
theorem acceptedRules?_eq_some_iff : acceptedRules? budget tree id = some css ↔
    tree.AsksFor id css ∧ (moveToStylesheet budget tree id).problem? = none := by
  constructor
  · intro accepted
    have outcome := moveToStylesheet_outcome budget tree id
    rw [accepted] at outcome
    generalize moveToStylesheet budget tree id = result at outcome
    cases outcome with
    | accepted isElement read something => exact ⟨⟨_, _, isElement, read, something, rfl⟩, rfl⟩
  · rintro ⟨asks, moved⟩
    obtain ⟨movedIff, accepted⟩ := moved_iff_of_asksFor asks budget
    rw [accepted, if_pos (movedIff.mp moved)]

/-- Moving attributes does not move the limit. -/
theorem moveToStylesheet_limit (budget : Budget) (tree : Tree) (id : NodeId) :
    (moveToStylesheet budget tree id).budget.limit = budget.limit := by
  have outcome := moveToStylesheet_outcome budget tree id
  generalize moveToStylesheet budget tree id = result at outcome
  generalize acceptedRules? budget tree id = rules? at outcome
  cases outcome with
  | unread => rfl
  | bare => rfl
  | refused => exact (Budget.add_outcome budget _ _).continues.limit
  | accepted => exact (Budget.add_outcome budget _ _).continues.limit

/-- What an attempt to move attributes does to the budget. -/
theorem moveToStylesheet_step (forest : tree.Forest) (noStyle : tree.isTagged id "style" = false)
    (budget : Budget) : Budget.Step (budget.counted tree) budget
      (acceptedRules? budget tree id) (moveToStylesheet budget tree id).budget := by
  have outcome := moveToStylesheet_outcome budget tree id
  generalize moveToStylesheet budget tree id = result at outcome
  generalize acceptedRules? budget tree id = rules? at outcome
  have added : ∀ (found : List FoundStyle) {element}, tree.element? id = some element →
      Budget.Step (budget.counted tree) budget
        (if (budget.add (tree.ensureId id).2 (rulesFor found (tree.ensureId id).1)).refusal? = none
          then some (rulesFor found (tree.ensureId id).1) else none)
        (budget.add (tree.ensureId id).2 (rulesFor found (tree.ensureId id).1)).budget := by
    intro found element isElement
    rw [← Budget.counted_ensureId forest (Option.isSome_iff_exists.mpr ⟨_, isElement⟩) noStyle]
    exact Budget.add_step budget _ _
  cases outcome with
  | unread => exact .refl _ budget
  | bare => exact .refl _ budget
  | @refused _ found _ isElement _ _ refusal =>
      have step := added found isElement
      rwa [refusal, if_neg (by simp)] at step
  | @accepted _ found isElement _ _ allowed =>
      have step := added found isElement
      rwa [allowed, if_pos rfl] at step

end Asking

/-! ## Visits -/

/-- The count that a stylesheet brings when it is taken in hand: what the document carries, or
nothing if the stylesheet is created. -/
def Tree.openingCount (tree : Tree) : Nat :=
  if tree.customStyle?.isSome then tree.authorStyleSize else 0

theorem Budget.counted_of_unused {budget : Budget} (missing : budget.style? = none)
    (unused : budget.used = 0) (tree : Tree) : budget.counted tree = tree.openingCount := by
  unfold Tree.openingCount
  cases present : tree.customStyle? with
  | none => exact (counted_of_absent present).trans unused
  | some style =>
      rw [counted_of_found missing present, unused, Nat.zero_max]
      rfl

namespace Rendering

section Lists

variable {state : Rendering} {id : NodeId} {css : String}

theorem acceptedRules_append (state : Rendering) (earlier later : List NodeId) :
    state.acceptedRules (earlier ++ later) =
      state.acceptedRules earlier ++ (earlier.foldl visit state).acceptedRules later := by
  induction earlier generalizing state with
  | nil => rfl
  | cons id rest ih =>
      rw [List.cons_append, acceptedRules, acceptedRules, ih, List.append_assoc]
      rfl

/-- Visits accept rules of the visited elements, in the order of the visits. -/
theorem map_fst_acceptedRules_sublist (state : Rendering) (ids : List NodeId) :
    ((state.acceptedRules ids).map (·.1)).Sublist ids := by
  induction ids generalizing state with
  | nil => exact List.Sublist.refl _
  | cons id rest ih =>
      rw [acceptedRules, List.map_append]
      cases state.visitRules? id with
      | none => exact (ih _).cons id
      | some css => exact (ih _).cons_cons id

theorem mem_acceptedRules_iff {ids : List NodeId} : (id, css) ∈ state.acceptedRules ids ↔
    ∃ earlier later, ids = earlier ++ id :: later ∧
      (earlier.foldl visit state).visitRules? id = some css := by
  induction ids generalizing state with
  | nil => simp [acceptedRules]
  | cons first rest ih =>
      rw [acceptedRules, List.mem_append, ih, Option.mem_toList,
        Option.map_eq_some_iff]
      constructor
      · rintro (⟨css, accepted, same⟩ | ⟨earlier, later, rfl, accepted⟩)
        · cases same
          exact ⟨[], rest, rfl, accepted⟩
        · exact ⟨first :: earlier, later, rfl, accepted⟩
      · rintro ⟨earlier, later, split, accepted⟩
        cases earlier with
        | nil =>
            obtain ⟨rfl, rfl⟩ := List.cons.inj split
            exact .inl ⟨css, accepted, rfl⟩
        | cons other earlier =>
            obtain ⟨rfl, rfl⟩ := List.cons.inj split
            exact .inr ⟨earlier, later, rfl, accepted⟩

end Lists

section Visit

variable {state : Rendering} {id : NodeId}

/-- A visit spends what moving the attributes does. -/
theorem visit_budget : (state.visit id).budget =
    if state.tree.isInside id "template" then state.budget
    else (moveToStylesheet state.budget state.tree id).budget := by
  have visited := visit_visited state id
  generalize state.visitRules? id = rules? at visited
  generalize (state.visit id).budget = budget at visited ⊢
  generalize (state.visit id).tree = after at visited
  cases visited with
  | skipped inside => rw [if_pos inside]
  | treated outside => rw [if_neg (by simp [outside])]

theorem visits_limit (state : Rendering) (ids : List NodeId) :
    (ids.foldl visit state).budget.limit = state.budget.limit := by
  induction ids generalizing state with
  | nil => rfl
  | cons id rest ih =>
      rw [List.foldl_cons, ih, visit_budget]
      split
      next => rfl
      next => exact moveToStylesheet_limit state.budget state.tree id

theorem visit_step (forest : state.tree.Forest)
    (noStyle : state.tree.isTagged id "style" = false) :
    Budget.Step (state.budget.counted state.tree) state.budget (state.visitRules? id)
      (state.visit id).budget := by
  rw [visit_budget, visitRules?]
  split
  next => exact .refl _ _
  next => exact moveToStylesheet_step forest noStyle state.budget

end Visit

/-! ## Accounts -/

/-- At the turn of an element a stylesheet is taken in hand. -/
structure OpensAt (state : Rendering) (html id : NodeId) : Prop where
  treated : state.tree.IsTreated id
  missing : (state.turn html id).budget.style? = none
  atHand : ((state.turn html id).visit id).budget.style?.isSome = true

/-- The account of a budget when some rules have been accepted. -/
inductive Account (state : Rendering) (html : NodeId) (budget : Budget)
    (rules : List (NodeId × String)) : Prop where
  /-- No stylesheet has been needed. -/
  | closed (missing : budget.style? = none) (unused : budget.used = 0) (nothing : rules = [])
  /-- The count is the opening count and the bytes of the rules. -/
  | opened {first style : NodeId} (opens : state.OpensAt html first)
      (atHand : budget.style? = some style)
      (used : budget.used =
        (state.turn html first).tree.openingCount + (rulesText rules).utf8ByteSize)

/-- The rules that are accepted before the turn of an element. -/
def rulesBefore (state : Rendering) (html id : NodeId) : List (NodeId × String) :=
  (state.marked html).acceptedRules ((state.marked html).extensions.takeWhile (· != id))

section Run

variable {state : Rendering} {html id : NodeId} {css : String} (forest : state.tree.Forest)
  (found : state.tree.html? = some html) (settled : state.budget.Settled state.tree)
include forest found settled

theorem mem_runRules_iff : (id, css) ∈ state.runRules html ↔ state.tree.IsTreated id ∧
    acceptedRules? (state.turn html id).budget (state.turn html id).tree id = some css := by
  rw [runRules, mem_acceptedRules_iff]
  constructor
  · rintro ⟨earlier, later, split, accepted⟩
    obtain ⟨extension, turn⟩ := turn_of_split forest found split
    rw [← turn, visitRules?, (atTurn forest found extension settled).isInside] at accepted
    split at accepted
    next => exact absurd accepted (by simp)
    next outside => exact ⟨⟨extension, by simpa using outside⟩, accepted⟩
  · rintro ⟨⟨extension, outside⟩, accepted⟩
    obtain ⟨earlier, later, split⟩ := List.append_of_mem (mem_extensions forest found extension)
    refine ⟨earlier, later, split, ?_⟩
    rw [← (turn_of_split forest found split).2, visitRules?,
      (atTurn forest found extension settled).isInside, outside, if_neg (by simp), accepted]

omit settled in
/-- One visit more, and its rules. -/
theorem visits_of_split {earlier rest : List NodeId}
    (split : (state.marked html).extensions = (earlier ++ [id]) ++ rest) :
    (state.marked html).extensions = earlier ++ id :: rest ∧ state.tree.IsExtension id ∧
      state.turn html id = earlier.foldl visit (state.marked html) ∧
      (earlier ++ [id]).foldl visit (state.marked html) = (state.turn html id).visit id ∧
      (state.marked html).acceptedRules (earlier ++ [id]) =
        (state.marked html).acceptedRules earlier ++
          (((state.turn html id).visitRules? id).map (id, ·)).toList := by
  rw [List.append_assoc, List.singleton_append] at split
  obtain ⟨extension, turn⟩ := turn_of_split forest found split
  have accepted : (state.turn html id).acceptedRules [id] =
      (((state.turn html id).visitRules? id).map (id, ·)).toList := List.append_nil _
  refine ⟨split, extension, turn, ?_, ?_⟩
  · rw [List.foldl_append, ← turn]
    rfl
  · rw [acceptedRules_append, ← turn, accepted]

variable (missing : state.budget.style? = none) (unused : state.budget.used = 0)
include missing unused

/-- **The account holds after any number of visits.** -/
theorem account_of_split {ids rest : List NodeId}
    (split : (state.marked html).extensions = ids ++ rest) :
    state.Account html (ids.foldl visit (state.marked html)).budget
      ((state.marked html).acceptedRules ids) := by
  induction ids using List.reverseRecOn generalizing rest with
  | nil => exact .closed missing unused rfl
  | append_singleton earlier id ih =>
      obtain ⟨split, extension, turn, last, rules⟩ := visits_of_split forest found split
      have before := atTurn forest found extension settled
      have account := ih split
      have step := visit_step before.site.forest (extension.untagged before.same.tag?).1
      rw [last, rules]
      rw [← turn] at account
      have size :
          (rulesText (((state.turn html id).visitRules? id).map (id, ·)).toList).utf8ByteSize =
          Budget.bytes ((state.turn html id).visitRules? id) := by
        rw [rulesText_singleton, Budget.bytes]
      cases account with
      | closed missing unused nothing =>
          rw [nothing, List.nil_append]
          rcases step.missing missing with ⟨same, none⟩ | ⟨atHand, used⟩
          · rw [none, same]
            exact .closed missing unused rfl
          · obtain ⟨style, known⟩ := Option.isSome_iff_exists.mp atHand
            rw [Budget.counted_of_unused missing unused] at used
            refine .opened ⟨⟨extension, ?_⟩, missing, atHand⟩ known ?_
            · -- Nothing is taken in hand inside of a template.
              rw [← before.isInside]
              refine Bool.eq_false_iff.mpr fun inside => ?_
              rw [visit, if_pos inside, missing] at atHand
              exact absurd atHand (by simp)
            · rw [size]
              exact used
      | opened opens atHand used =>
          obtain ⟨stays, more⟩ := step.known atHand
          refine .opened opens stays (more.trans ?_)
          rw [used, rulesText_append, String.utf8ByteSize_append, size, Nat.add_assoc]

end Run

/-! ## The content of the stylesheet -/

/-- Boilerplate is no text, so a node that holds nothing but texts keeps its children. -/
theorem Edits.OfRun.left_of_holdsOnlyText {edits : Edits} {before : Tree} {budget : Budget}
    {rules : List (NodeId × String)} (ofRun : edits.OfRun before budget rules) {id : NodeId}
    (holds : before.HoldsOnlyText id) : edits.left before id = before.children id := by
  refine List.filter_eq_self.mpr fun child member => decide_eq_true fun dropped => ?_
  obtain ⟨_, -, -, boilerplate⟩ := ofRun.dropped_below dropped
  have isText := (holds child member).1
  rw [Tree.text?_of_tag? boilerplate.isSome_tag?] at isText
  exact absurd isText (by simp)

namespace Framed

variable {edits : Edits} {before after : Tree} {html style : NodeId}
  (framed : Framed edits before after html)
include framed

/-- A stylesheet that is created holds the rules and nothing else. -/
theorem content_created (start : before.Forest) (textsAfter : after.StylesHoldText)
    (absent : before.customStyle? = none) (atHand : edits.sheet? = some style) :
    after.textContent style = edits.css := by
  obtain ⟨isNew, kind, ending⟩ := framed.created absent atHand
  have empty := Tree.children_of_size_le isNew
  have nothing : ∀ child, child ∉ before.children style := by
    intro child
    rw [empty]
    exact List.not_mem_nil
  have noDataBefore : before.characterData? style = none := by
    rw [Tree.characterData?, Tree.kind?_of_size_le isNew]
  have tagged : after.isTagged style "style" = true := by
    rw [Tree.isTagged_of_element? (Tree.element?_eq_some_iff.mpr kind)]
    with_unfolding_all decide
  rw [← empty] at ending
  have content := ending.textContent start framed.forest
    (fun child member => absurd member (nothing child)) (textsAfter style tagged) noDataBefore
    (Tree.characterData?_of_element? (Tree.isSome_element?_of_isTagged tagged))
    fun child member => absurd member (nothing child)
  rwa [Tree.textContent_of_childless start empty noDataBefore, String.empty_append] at content

/-- The rules come to the end of a stylesheet that was there. -/
theorem content_kept (start : before.Forest) (isHtml : before.isTagged html "html" = true)
    (texts : before.StylesHoldText) (textsAfter : after.StylesHoldText)
    (present : before.customStyle? = some style)
    (left : edits.left before style = before.children style) :
    after.textContent style = before.textContent style ++ edits.css := by
  have tagged := Tree.isTagged_of_customStyle? present
  have taggedAfter : after.isTagged style "style" = true := by
    rwa [Tree.isTagged_congr (framed.tag? (Tree.lt_size_of_isTagged tagged))]
  have noData : ∀ {tree : Tree}, tree.isTagged style "style" = true →
      tree.characterData? style = none :=
    fun tagged => Tree.characterData?_of_element? (Tree.isSome_element?_of_isTagged tagged)
  obtain ⟨ending, -⟩ := framed.sheet present
  rw [left] at ending
  refine ending.textContent start framed.forest (texts style tagged)
    (textsAfter style taggedAfter) (noData tagged) (noData taggedAfter)
    fun child member notLast => ?_
  refine framed.text? isHtml (start.child_lt member) ?_
  rintro ⟨other, otherPresent, isLast, -⟩
  rw [present] at otherPresent
  cases otherPresent
  exact notLast isLast

end Framed

/-! ## The ledger -/

/-- What the list of accepted rules says about a run. -/
structure Ledger (state : Rendering) (html : NodeId) (rules : List (NodeId × String))
    (after : Tree) (budget : Budget) : Prop where
  /-- Every element is listed once at most, in document order. -/
  ordered : (rules.map (·.1)).Sublist (state.tree.descendants Tree.root)
  distinct : (rules.map (·.1)).Nodup
  /-- The rules are those of the elements that ask for rules and can be moved. -/
  mem_iff : ∀ {id css}, (id, css) ∈ rules ↔ state.tree.IsTreated id ∧
    (state.turn html id).tree.AsksFor id css ∧
    (moveToStylesheet (state.turn html id).budget (state.turn html id).tree id).problem? = none
  /-- They can be moved exactly if they fit, whatever has been refused before. -/
  accepted_iff : ∀ {id css}, state.tree.IsTreated id → (state.turn html id).tree.AsksFor id css →
    ((id, css) ∈ rules ↔ state.tree.head?.isSome = true ∧
      (state.turn html id).budget.counted (state.turn html id).tree + css.utf8ByteSize ≤
        state.budget.limit)
  earlier : ∀ id, state.rulesBefore html id <+: rules
  account_turn : ∀ {id}, state.tree.IsTreated id →
    state.Account html (state.turn html id).budget (state.rulesBefore html id)
  account : state.Account html budget rules
  /-- The stylesheet at hand is that of the document, or it is new. -/
  origin : ∀ {style}, budget.style? = some style → state.tree.customStyle? = some style ∨
    state.tree.customStyle? = none ∧ state.tree.size ≤ style
  /-- Its content is what it was, and then the rules. -/
  content : ∀ {style}, budget.style? = some style → after.textContent style =
    (if state.tree.customStyle? = none then "" else state.tree.textContent style) ++
      rulesText rules

section Run

variable {state : Rendering} {html id : NodeId} {css : String} (forest : state.tree.Forest)
  (found : state.tree.html? = some html) (settled : state.budget.Settled state.tree)
include forest found settled

theorem head?_turn (extension : state.tree.IsExtension id) :
    (state.turn html id).tree.head? = state.tree.head? := by
  obtain ⟨earlier, later, extensions, -, -, turn, -⟩ := visitAll_eq forest found extension
  have site := markedSite forest found
  have lands := visits_lands earlier site (settled_marked forest found settled)
    fun other member => by
      have isExtension := extensions other (List.mem_append_left later member)
      exact ⟨isExtension, .inr (.inl isExtension)⟩
  rw [turn, site.head?_of_grows lands.grows]
  exact (forest.site found).head?_of_grows (marked_grows forest found)

/-- Rules are accepted exactly if there is a head and they fit. -/
theorem mem_runRules_iff_fits (treated : state.tree.IsTreated id)
    (asks : (state.turn html id).tree.AsksFor id css) :
    (id, css) ∈ state.runRules html ↔ state.tree.head?.isSome = true ∧
      (state.turn html id).budget.counted (state.turn html id).tree + css.utf8ByteSize ≤
        state.budget.limit := by
  have before := atTurn forest found treated.1 settled
  have noStyle := (treated.1.untagged before.same.tag?).1
  have isElement : ((state.turn html id).tree.element? id).isSome = true := by
    obtain ⟨element, -, isElement, -⟩ := asks
    exact Option.isSome_iff_exists.mpr ⟨element, isElement⟩
  have named : Tree.Grows state.tree.visitScope Element.Plain (state.turn html id).tree
      ((state.turn html id).tree.ensureId id).2 := ensureId_grows before.site treated.1
  have limit : (state.turn html id).budget.limit = state.budget.limit := visits_limit _ _
  have outcome := Budget.add_outcome (state.turn html id).budget
    ((state.turn html id).tree.ensureId id).2 css
  have head : ((state.turn html id).tree.ensureId id).2.head? = state.tree.head? :=
    (before.site.head?_of_grows named).trans (head?_turn forest found settled treated.1)
  have hasHead : (state.turn html id).budget.style?.isSome = true →
      state.tree.head?.isSome = true := by
    intro atHand
    obtain ⟨style, known⟩ := Option.isSome_iff_exists.mp atHand
    obtain ⟨head, headFound, -⟩ := before.settled style known
    rw [← head?_turn forest found settled treated.1, headFound]
    rfl
  have accepted := (moved_iff_of_asksFor asks (state.turn html id).budget).2
  rw [mem_runRules_iff forest found settled, accepted]
  have fits := outcome.refusal?_eq_none_iff
  rw [Budget.counted_ensureId before.site.forest isElement noStyle, limit, head] at fits
  constructor
  · rintro ⟨-, allowed⟩
    split at allowed
    next permitted =>
      obtain ⟨within, place⟩ := fits.mp permitted
      exact ⟨place.elim hasHead fun head => head, within⟩
    next => exact absurd allowed (by simp)
  · rintro ⟨hasHead, within⟩
    rw [if_pos (fits.mpr ⟨within, .inr hasHead⟩)]
    exact ⟨treated, rfl⟩

/-- The stylesheet at hand in the end, and what it holds. -/
theorem content_run (registry : ScriptRegistry) (missing : state.budget.style? = none)
    (texts : state.tree.StylesHoldText) {style : NodeId}
    (known : (run registry state html).budget.style? = some style) :
    (state.tree.customStyle? = some style ∨
        state.tree.customStyle? = none ∧ state.tree.size ≤ style) ∧
      (run registry state html).tree.textContent style =
        (if state.tree.customStyle? = none then "" else state.tree.textContent style) ++
          rulesText (state.runRules html) := by
  obtain ⟨edits, ofRun, framed⟩ := run_framed registry forest found settled missing
  have textsAfter := run_stylesHoldText registry forest found settled texts
  have atHand : edits.sheet? = some style := ofRun.sheet?.trans known
  rw [← ofRun.css]
  rcases framed.sheet_origin atHand with present | ⟨absent, isNew⟩
  · have left := ofRun.left_of_holdsOnlyText
      (texts style (Tree.isTagged_of_customStyle? present))
    rw [if_neg (by simp [present])]
    exact ⟨.inl present, framed.content_kept forest (Tree.html?_eq_some_iff.mp found).2 texts
      textsAfter present left⟩
  · rw [if_pos absent, String.empty_append]
    exact ⟨.inr ⟨absent, isNew⟩, framed.content_created forest textsAfter absent atHand⟩

/-- **The ledger of a run.** -/
theorem run_ledger (registry : ScriptRegistry) (missing : state.budget.style? = none)
    (unused : state.budget.used = 0) (texts : state.tree.StylesHoldText) :
    Ledger state html (state.runRules html) (run registry state html).tree
      (run registry state html).budget where
  ordered := by
    rw [runRules, extensions_marked forest]
    exact (map_fst_acceptedRules_sublist _ _).trans List.filter_sublist
  distinct := by
    refine (map_fst_acceptedRules_sublist _ _).nodup ?_
    exact ((marked_grows forest found).forest.nodup_descendants Tree.root).filter _
  mem_iff := by
    intro id css
    rw [mem_runRules_iff forest found settled, acceptedRules?_eq_some_iff]
  accepted_iff := mem_runRules_iff_fits forest found settled
  earlier id := by
    have split := List.takeWhile_append_dropWhile (p := (· != id))
      (l := (state.marked html).extensions)
    rw [runRules, rulesBefore]
    nth_rewrite 2 [← split]
    rw [acceptedRules_append]
    exact List.prefix_append _ _
  account_turn {id} treated := by
    have split := List.takeWhile_append_dropWhile (p := (· != id))
      (l := (state.marked html).extensions)
    exact account_of_split forest found settled missing unused split.symm
  account := by
    rw [run_budget]
    exact account_of_split forest found settled missing unused (List.append_nil _).symm
  origin known := (content_run forest found settled registry missing texts known).1
  content known := (content_run forest found settled registry missing texts known).2

end Run

end Rendering

open Rendering

/-- **The ledger of rendering.** In a document in which styles hold nothing but text, the rules
that are accepted tell what the stylesheet at hand holds in the end and what is counted. -/
theorem renderAhead_ledger {tree : Tree} (registry : ScriptRegistry) (limit : Nat)
    (report : Report) (reachable : tree.Reachable) (texts : tree.StylesHoldText) :
    let rendered := renderAhead registry { limit } report tree
    (tree.Marked → rendered.tree = tree ∧ rendered.budget = { limit }) ∧
    ∀ html, tree.html? = some html → tree.hasAttribute html layoutMarker = false →
      Ledger (start limit report tree) html (movedRules limit report tree html) rendered.tree
        rendered.budget := by
  intro rendered
  constructor
  · intro marked
    have same := renderAhead_of_marked marked registry { limit } report
    exact ⟨congrArg Rendered.tree same, congrArg Rendered.budget same⟩
  · intro html found unmarked
    have before : (start limit report tree).tree.Forest := reachable.forest
    have ledger := run_ledger before found (start_settled limit report tree) registry rfl rfl texts
    rw [← renderAhead_budget registry limit report found unmarked,
      ← (renderAhead_eq registry limit report found unmarked).1] at ledger
    rwa [movedRules, if_neg (by simp [unmarked])]

/-- A document with a custom stylesheet and two images, of which the first asks for a long
rule. -/
def Tree.contestedTree : Tree :=
  built [.createElement "html" [], .append root 1, .createElement "head" [], .append 1 2,
    .createElement "style" [("amp-custom", "")], .append 2 3, .appendText 3 "p\x7b\x7d",
    .createElement "body" [], .append 1 5,
    .createElement "amp-img" [("id", "b"), ("media", "(min-width: 1000px) and print")],
    .append 5 6,
    .createElement "amp-img" [("id", "a"), ("media", "print"), ("heights", "9px")], .append 5 7]

/-- The rule of the first image is refused, those of the second one fit behind the content that
was there. -/
theorem renderAhead_ledger_contestedTree :
    let rendered := renderAhead .published { limit := 69 } ∅ Tree.contestedTree
    let css := printRule ++ "#a>i-amphtml-sizer\x7bheight:9px\x7d;"
    movedRules 69 ∅ Tree.contestedTree 1 = [(7, css)] ∧
      (moveToStylesheet ((start 69 ∅ Tree.contestedTree).turn 1 7).budget
        ((start 69 ∅ Tree.contestedTree).turn 1 7).tree 7).problem? = none ∧
      rendered.tree.textContent 3 = "p\x7b\x7d" ++ css ∧ rendered.budget.used = 69 := by
  intro rendered css
  have reachable : Tree.contestedTree.Reachable := by
    unfold Tree.contestedTree
    exact Tree.reachable_built (by decide +kernel)
  obtain ⟨-, ledgers⟩ := renderAhead_ledger .published 69 ∅ reachable (by decide +kernel)
  have ledger := ledgers 1 (by decide +kernel) (by decide +kernel)
  have rules : movedRules 69 ∅ Tree.contestedTree 1 = [(7, css)] := by decide +kernel
  have known : rendered.budget.style? = some 3 := by decide +kernel
  obtain ⟨-, -, moved⟩ := ledger.mem_iff.mp (by rw [rules]; exact List.mem_singleton_self _)
  refine ⟨rules, moved, ?_, by decide +kernel⟩
  rw [ledger.content known, rules]
  decide +kernel

end FirstPaint
