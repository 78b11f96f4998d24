import FirstPaint.Proofs.Layout.Applying
import FirstPaint.Proofs.Responsive.Moving

/-!
# Rendering up to the sweep

Rendering marks the html element, visits the extension elements, adds the place for
the style of the runtime and looks at the scripts of the head. Up to that point the
tree only grows. Attributes are written to the html element and to extension
elements (`Tree.runScope`); children come to new nodes, extension elements, the
head and the custom stylesheets in it (`Tree.GivenTo`). Neither the document nor its
html element is among the latter, since all of these lie below the html element or
are extension elements, and no extension element is an html element.

What a visit can make of the document and the budget is told once (`visit_visited`):
an element in a template is skipped, and every other one is treated, where the checks
before the treatment only report. What visits keep goes by these cases.

The rules accepted in one visit after another are listed by `acceptedRules`. All of
them are in the stylesheet of the budget when the sweep begins.
-/

set_option autoImplicit false

namespace FirstPaint

namespace Tree

/-- The node is an extension element of the document. -/
def IsExtension (tree : Tree) (id : NodeId) : Prop :=
  tree.Below id root ∧ ∃ tag, tree.tag? id = some tag ∧ isExtensionTag tag = true

/-- The node may receive children while a document is rendered. -/
def GivenTo (tree : Tree) (id : NodeId) : Prop :=
  tree.size ≤ id ∨ tree.IsExtension id ∨ tree.head? = some id ∨ tree.IsCustomStyle id

/-- What visits may change. -/
def visitScope (tree : Tree) : Scope := ⟨tree.IsExtension, tree.GivenTo⟩

/-- What rendering may change before the sweep: the html element is marked as well. -/
def runScope (tree : Tree) (html : NodeId) : Scope :=
  ⟨fun id => id = html ∨ tree.IsExtension id, tree.GivenTo⟩

section Document

variable {tree : Tree} {html head id : NodeId}

theorem IsExtension.exists_element (extension : tree.IsExtension id) :
    ∃ element, tree.element? id = some element ∧ isExtensionTag element.tag = true := by
  obtain ⟨-, tag, tagged, start⟩ := extension
  obtain ⟨element, found, rfl⟩ := Option.map_eq_some_iff.mp tagged
  exact ⟨element, found, start⟩

theorem IsExtension.lt_size (extension : tree.IsExtension id) : id < tree.size := by
  obtain ⟨element, found, -⟩ := extension.exists_element
  exact lt_size_of_element? found

theorem IsExtension.isSome_tag? (extension : tree.IsExtension id) :
    (tree.tag? id).isSome = true := by
  obtain ⟨-, tag, tagged, -⟩ := extension
  exact Option.isSome_iff_exists.mpr ⟨tag, tagged⟩

/-- Lower case does not take the start of an extension tag away. -/
theorem isPrefixOf_lower_of_isExtensionTag {tag : String} (extension : isExtensionTag tag = true) :
    "amp-".toList.isPrefixOf (Ascii.lower tag).toList = true := by
  have start := (List.isPrefixOf_iff_prefix.mp extension).map Char.toLower
  have lowered : "amp-".toList.map Char.toLower = "amp-".toList := by decide
  rw [lowered] at start
  rw [Ascii.lower, String.toList_map]
  exact List.isPrefixOf_iff_prefix.mpr start

theorem IsExtension.isTagged_eq_false (extension : tree.IsExtension id) {tag : String}
    (other : "amp-".toList.isPrefixOf (Ascii.lower tag).toList = false) :
    tree.isTagged id tag = false := by
  obtain ⟨-, present, found, start⟩ := extension
  rw [Tree.isTagged, found, Option.any_some, Ascii.sameName, beq_eq_false_iff_ne]
  intro same
  rw [← same, isPrefixOf_lower_of_isExtensionTag start] at other
  exact absurd other (by simp)

/-- The nodes that may receive children are not above the head. -/
theorem Forest.not_givenTo (forest : tree.Forest)
    (inside : id < tree.size) (noExtension : ¬ tree.IsExtension id)
    (above : ∀ {head}, tree.head? = some head → tree.Below head id) : ¬ tree.GivenTo id := by
  rintro (outside | extension | isHead | custom)
  · exact Nat.not_lt_of_le outside inside
  · exact noExtension extension
  · exact forest.not_below_self (above isHead)
  · obtain ⟨head, headFound, below, -⟩ := custom
    exact forest.not_below_self (below.trans (above headFound))

/-- A document with an html element is the site of its rendering. -/
theorem Forest.site (forest : tree.Forest) (found : tree.html? = some html) :
    Site (tree.runScope html) tree html := by
  have htmlLink := forest.parent?_of_html? found
  have htmlInside := lt_size_of_parent? htmlLink
  have htmlTagged := (html?_eq_some_iff.mp found).2
  have htmlBelow := below_of_parent? htmlLink
  have headBelow : ∀ {head}, tree.head? = some head → tree.Below head html :=
    fun headFound => below_of_parent? (forest.parent?_of_head? found headFound)
  refine
    { forest := forest
      html? := found
      rootApart := ?_
      htmlApart := ?_
      headReceives := fun headFound => .inr (.inr (.inl headFound))
      styleReceives := fun headFound below marked =>
        .inr (.inr (.inr ⟨_, headFound, below, marked⟩))
      newReceives := .inl
      writtenInside := ?_
      writtenPlain := ?_ }
  · refine forest.not_givenTo (forest.parent_lt htmlLink) ?_ ?_
    · exact fun extension => forest.not_below_self extension.1
    · exact fun headFound => (headBelow headFound).trans htmlBelow
  · refine forest.not_givenTo htmlInside ?_ headBelow
    intro extension
    rw [extension.isTagged_eq_false (by with_unfolding_all decide)] at htmlTagged
    exact absurd htmlTagged (by simp)
  · rintro id (rfl | extension)
    · exact htmlInside
    · exact extension.lt_size
  · rintro id (rfl | extension)
    · exact ⟨isTagged_eq_false_of_isTagged htmlTagged (by with_unfolding_all decide),
        isTagged_eq_false_of_isTagged htmlTagged (by with_unfolding_all decide)⟩
    · exact ⟨extension.isTagged_eq_false (by with_unfolding_all decide),
        extension.isTagged_eq_false (by with_unfolding_all decide)⟩

end Document

end Tree

namespace Rendering

/-! ## Visits -/

/-- The rules that are accepted in one visit. -/
def visitRules? (state : Rendering) (id : NodeId) : Option String :=
  if state.tree.isInside id "template" then none else acceptedRules? state.budget state.tree id

/-- The rules that are accepted in visits one after another, with their elements. -/
def acceptedRules : Rendering → List NodeId → List (NodeId × String)
  | _, [] => []
  | state, id :: rest =>
    ((state.visitRules? id).map (id, ·)).toList ++ acceptedRules (state.visit id) rest

section Visits

variable {scope : Scope} {state : Rendering} {html id : NodeId}

theorem checkExperiment_eq :
    (state.checkExperiment id).tree = state.tree ∧
      (state.checkExperiment id).budget = state.budget := by
  unfold checkExperiment
  split
  next => exact ⟨rfl, rfl⟩
  next => exact ⟨rfl, rfl⟩

theorem checkAudio_eq :
    (state.checkAudio id).tree = state.tree ∧ (state.checkAudio id).budget = state.budget := by
  unfold checkAudio
  split
  next => exact ⟨rfl, rfl⟩
  next => exact ⟨rfl, rfl⟩

/-- The checks of an element report, and that is all. -/
theorem checks_eq (state : Rendering) (id : NodeId) :
    ((state.checkExperiment id).checkAudio id).tree = state.tree ∧
      ((state.checkExperiment id).checkAudio id).budget = state.budget :=
  ⟨checkAudio_eq.1.trans checkExperiment_eq.1, checkAudio_eq.2.trans checkExperiment_eq.2⟩

/-- What treating an element makes of a document: its blocking attributes move or stay, and
where they have moved, the box that the element has is applied. -/
inductive Treated (budget : Budget) (tree : Tree) (id : NodeId) : Tree → Prop where
  | moved : Treated budget tree id (moveToStylesheet budget tree id).tree
  | boxed {box : LayoutBox} (moves : (moveToStylesheet budget tree id).problem? = none)
      (computed : LayoutBox.ofElement (moveToStylesheet budget tree id).tree id
        (hasConditionalSizes tree id) = .ok box) :
      Treated budget tree id (box.applyTo (moveToStylesheet budget tree id).tree id)

/-- What a visit makes of a document and its budget, with the rules that it accepts. -/
inductive Visited (budget : Budget) (tree : Tree) (id : NodeId) :
    Option String → Budget → Tree → Prop where
  | skipped (inside : tree.isInside id "template" = true) :
      Visited budget tree id none budget tree
  | treated {after : Tree} (outside : tree.isInside id "template" = false)
      (treated : Treated budget tree id after) :
      Visited budget tree id (acceptedRules? budget tree id)
        (moveToStylesheet budget tree id).budget after

theorem treat_treated (state : Rendering) (id : NodeId) :
    Treated state.budget state.tree id (state.treat id).tree ∧
      (state.treat id).budget = (moveToStylesheet state.budget state.tree id).budget := by
  unfold treat
  dsimp only
  split
  next moves =>
    unfold layOut
    split
    next box computed => exact ⟨.boxed moves computed, rfl⟩
    next => exact ⟨.moved, rfl⟩
  next => exact ⟨.moved, rfl⟩

/-- The cases of a visit. -/
theorem visit_visited (state : Rendering) (id : NodeId) :
    Visited state.budget state.tree id (state.visitRules? id) (state.visit id).budget
      (state.visit id).tree := by
  obtain ⟨sameTree, sameBudget⟩ := checks_eq state id
  obtain ⟨treated, spent⟩ := treat_treated ((state.checkExperiment id).checkAudio id) id
  rw [sameTree, sameBudget] at treated spent
  unfold visit visitRules?
  split
  next inside => exact .skipped inside
  next outside =>
    rw [spent]
    exact .treated (by simpa using outside) treated

/-- Treating an element lands its accepted rules. -/
theorem Treated.lands {budget : Budget} {tree after : Tree} (treated : Treated budget tree id after)
    (site : tree.Site scope html) (settled : budget.Settled tree) (written : scope.written id)
    (receives : scope.given id) :
    Budget.Lands scope (acceptedRules? budget tree id = some ·) budget tree
      (moveToStylesheet budget tree id).budget after := by
  have moved := moveToStylesheet_lands site settled written
  cases treated with
  | moved => exact moved
  | @boxed box =>
      have laterSite := site.grown moved.grows
      have grows := box.applyTo_grows laterSite.forest (laterSite.writtenInside id written) written
        receives
      have laid : Budget.Lands scope (fun _ => False) _ _ _ _ :=
        .of_grows laterSite moved.settled grows
      exact (moved.trans site laid).mono fun css landed => .inl landed

/-- One visit lands its accepted rules. -/
theorem visit_lands (site : state.tree.Site scope html)
    (settled : state.budget.Settled state.tree) (written : scope.written id)
    (receives : scope.given id) :
    Budget.Lands scope (state.visitRules? id = some ·)
      state.budget state.tree (state.visit id).budget (state.visit id).tree := by
  have visited := visit_visited state id
  generalize state.visitRules? id = rules? at visited ⊢
  generalize (state.visit id).budget = budget at visited ⊢
  generalize (state.visit id).tree = after at visited ⊢
  cases visited with
  | skipped =>
      exact (Budget.Lands.of_grows site settled (.refl site.forest)).mono
        fun css landed => absurd landed (by simp)
  | treated _ treated => exact treated.lands site settled written receives

/-- Visits one after another land all rules that they accept. -/
theorem visits_lands (ids : List NodeId) (site : state.tree.Site scope html)
    (settled : state.budget.Settled state.tree)
    (reached : ∀ id ∈ ids, scope.written id ∧ scope.given id) :
    Budget.Lands scope (fun css => ∃ id, (id, css) ∈ state.acceptedRules ids)
      state.budget state.tree (ids.foldl visit state).budget (ids.foldl visit state).tree := by
  induction ids generalizing state with
  | nil =>
      refine (Budget.Lands.of_grows site settled (.refl site.forest)).mono ?_
      rintro css ⟨id, member⟩
      exact absurd member (by simp [acceptedRules])
  | cons id rest ih =>
      obtain ⟨written, receives⟩ := reached id (by simp)
      have first := visit_lands site settled written receives
      have others := ih (site.grown first.grows) first.settled
        fun other member => reached other (List.mem_cons_of_mem id member)
      refine (first.trans site others).mono ?_
      rintro css ⟨other, member⟩
      rcases List.mem_append.mp member with here | later
      · obtain ⟨rules, accepted, same⟩ := Option.map_eq_some_iff.mp (Option.mem_toList.mp here)
        cases same
        exact .inl accepted
      · exact .inr ⟨other, later⟩

end Visits

/-! ## The way to the sweep -/

/-- The state in which the visits begin: the html element is marked. -/
def marked (state : Rendering) (html : NodeId) : Rendering :=
  { state with tree := state.tree.setAttribute html layoutMarker "" }

/-- The extension elements in the order in which they are visited. -/
def extensions (state : Rendering) : List NodeId :=
  state.tree.elementsBelow Tree.root fun _ element => isExtensionTag element.tag

/-- The state in which it is decided whether the boilerplate goes. -/
def prepared (registry : ScriptRegistry) (state : Rendering) (html head : NodeId) : Rendering :=
  checkScripts registry ((state.marked html).visitAll.addRuntimeStyle head) head

/-- The rules that are accepted while a document is rendered, with their elements. -/
def runRules (state : Rendering) (html : NodeId) : List (NodeId × String) :=
  (state.marked html).acceptedRules (state.marked html).extensions

section Way

theorem runtimeStyle_plain : (Element.ofPairs "style" [("amp-runtime", "")]).Plain := by
  constructor
  · unfold Element.NoBoilerplate
    with_unfolding_all decide
  · with_unfolding_all decide

theorem checkScript_eq (registry : ScriptRegistry) (state : Rendering) (script : NodeId) :
    (checkScript registry state script).tree = state.tree ∧
      (checkScript registry state script).budget = state.budget := by
  unfold checkScript
  split
  next => exact ⟨rfl, rfl⟩
  next => exact ⟨rfl, rfl⟩

/-- Looking at scripts leaves document and budget alone. -/
theorem checkScripts_eq (registry : ScriptRegistry) (state : Rendering) (head : NodeId) :
    (checkScripts registry state head).tree = state.tree ∧
      (checkScripts registry state head).budget = state.budget := by
  have run : ∀ (scripts : List NodeId) (state : Rendering),
      (scripts.foldl (checkScript registry) state).tree = state.tree ∧
        (scripts.foldl (checkScript registry) state).budget = state.budget := by
    intro scripts
    induction scripts with
    | nil => exact fun _ => ⟨rfl, rfl⟩
    | cons script rest ih =>
        intro state
        obtain ⟨sameTree, sameBudget⟩ := checkScript_eq registry state script
        obtain ⟨restTree, restBudget⟩ := ih (checkScript registry state script)
        exact ⟨restTree.trans sameTree, restBudget.trans sameBudget⟩
  exact run _ state

variable {state : Rendering} {html head : NodeId}

variable (forest : state.tree.Forest) (found : state.tree.html? = some html)
include forest found

theorem marked_grows :
    state.tree.Grows (state.tree.runScope html) Element.NoBoilerplate (state.marked html).tree :=
  (Tree.Grows.refl forest).setAttribute layoutMarker ""
    ((forest.site found).writtenInside html (.inl rfl)) (.inl rfl)

/-- From the mark on, attributes are written to extension elements only. -/
theorem markedSite :
    (state.marked html).tree.Site state.tree.visitScope html :=
  ((forest.site found).grown (marked_grows forest found)).mono
    (fun _ extension => .inr extension) rfl

/-- Whatever the visits do, the html element has the attributes it had and the mark. -/
theorem hasAttribute_of_grows {added : Element → Prop} {after : Tree}
    (grows : (state.marked html).tree.Grows state.tree.visitScope added after) (name : String) :
    after.hasAttribute html name =
      (Ascii.lower layoutMarker == Ascii.lower name || state.tree.hasAttribute html name) := by
  have tagged := (Tree.html?_eq_some_iff.mp (markedSite forest found).html?).2
  have same : after.element? html = (state.marked html).tree.element? html :=
    grows.element? (Tree.lt_size_of_isTagged tagged)
      fun extension => (forest.site found).htmlApart (.inr (.inl extension))
  rw [Tree.hasAttribute, same]
  exact Tree.hasAttribute_setAttribute
    (Tree.isSome_element?_of_isTagged (Tree.html?_eq_some_iff.mp found).2) layoutMarker "" name

theorem isExtension_of_mem {id : NodeId} (member : id ∈ (state.marked html).extensions) :
    state.tree.IsExtension id := by
  have grows := marked_grows forest found
  obtain ⟨below, extension⟩ := List.mem_filter.mp member
  rw [grows.forest.mem_descendants_iff] at below
  obtain ⟨element, known, start⟩ := (Option.any_eq_true _ _).mp extension
  have inside : id < state.tree.size := by
    rw [← Tree.size_modifyAttributes]
    exact Tree.lt_size_of_element? known
  refine ⟨(grows.below_iff forest inside).mp below, element.tag, ?_, start⟩
  rw [← grows.tag? inside, Tree.tag?, known, Option.map_some]

theorem settled_marked (settled : state.budget.Settled state.tree) :
    (state.marked html).budget.Settled (state.marked html).tree :=
  settled.grows (forest.site found) (marked_grows forest found)

theorem visitAll_lands (settled : state.budget.Settled state.tree) :
    Budget.Lands state.tree.visitScope
      (fun css => ∃ id, (id, css) ∈ state.runRules html) state.budget (state.marked html).tree
      (state.marked html).visitAll.budget (state.marked html).visitAll.tree := by
  refine visits_lands (state.marked html).extensions (markedSite forest found)
    (settled_marked forest found settled) ?_
  intro id member
  have extension := isExtension_of_mem forest found member
  exact ⟨extension, .inr (.inl extension)⟩

/-- The head that is found after the visits is that of the document. -/
theorem head?_visitAll (settled : state.budget.Settled state.tree) :
    (state.marked html).visitAll.tree.head? = state.tree.head? :=
  ((markedSite forest found).head?_of_grows (visitAll_lands forest found settled).grows).trans
    ((forest.site found).head?_of_grows (marked_grows forest found))

/-- All accepted rules have landed when it is decided whether the boilerplate goes. -/
theorem prepared_lands (registry : ScriptRegistry) (settled : state.budget.Settled state.tree)
    (headFound : state.tree.head? = some head) :
    Budget.Lands state.tree.visitScope
      (fun css => ∃ id, (id, css) ∈ state.runRules html) state.budget (state.marked html).tree
      (state.prepared registry html head).budget (state.prepared registry html head).tree := by
  have visited := visitAll_lands forest found settled
  have site := markedSite forest found
  have visitedSite := site.grown visited.grows
  have visitedHead := (head?_visitAll forest found settled).trans headFound
  have headInside := Tree.lt_size_of_parent?
    (visitedSite.forest.parent?_of_head? visitedSite.html? visitedHead)
  have styled : Tree.Grows state.tree.visitScope Element.Plain
      (state.marked html).visitAll.tree
      ((state.marked html).visitAll.addRuntimeStyle head).tree := by
    have creates : Tree.Creates state.tree.visitScope Element.Plain _ _ :=
      (Tree.Grows.refl visitedSite.forest).createElement runtimeStyle_plain
    have attached := creates.grows.forest.attached_prepend
      (Nat.lt_of_lt_of_le headInside creates.grows.size_le) creates.inside
    exact creates.grows.attach visitedSite.forest creates.isNew
      (fun _ => visitedSite.headReceives visitedHead) attached
  obtain ⟨sameTree, sameBudget⟩ := checkScripts_eq registry
    ((state.marked html).visitAll.addRuntimeStyle head) head
  have landed := visited.trans site (.of_grows visitedSite visited.settled styled)
  unfold prepared
  rw [sameTree, sameBudget]
  exact landed.mono fun css accepted => .inl accepted

theorem prepared_grows (registry : ScriptRegistry) (settled : state.budget.Settled state.tree)
    (headFound : state.tree.head? = some head) :
    state.tree.Grows (state.tree.runScope html) Element.NoBoilerplate
      (state.prepared registry html head).tree :=
  (marked_grows forest found).trans (forest.site found).writtenInside
    ((prepared_lands forest found registry settled headFound).grows.mono
      (fun _ extension => .inr extension) (fun _ given => given) fun _ allowed => allowed)

end Way

end Rendering

end FirstPaint
