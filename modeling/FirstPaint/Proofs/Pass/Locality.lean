import FirstPaint.Proofs.Pass.Verdict

/-!
# What rendering leaves alone

The visit of an element changes no other extension element. It writes to the element
itself, and children come to it, to the head, to the custom stylesheet and to nodes that
are new. So a node that is neither a style nor a head has the same tag, the same
attributes and the same children before and after the visits of others
(`visits_sameAt`).

The same holds of what is reported: the findings of a visit are about the visited element
(`Report.kindsAbout`). After the visits only the scripts of the head are spoken of, and
nothing is changed but the html element, the children of the head, and the place of the
boilerplate (`run_readings`).
-/

set_option autoImplicit false

namespace FirstPaint

namespace Tree

/-- Growth brings no node into an element with a tag, and takes none out. -/
theorem Grows.isInside {scope : Scope} {added : Element → Prop} {before after : Tree} {id : NodeId}
    (grows : Grows scope added before after) (forest : before.Forest) (inside : id < before.size)
    (tag : String) : after.isInside id tag = before.isInside id tag := by
  rw [Bool.eq_iff_iff, Tree.isInside, Tree.isInside, List.any_eq_true, List.any_eq_true]
  refine exists_congr fun ancestor => ?_
  rw [grows.forest.mem_ancestors_iff, forest.mem_ancestors_iff, grows.below_iff forest inside]
  exact and_congr_right fun below => by rw [grows.isTagged (forest.ancestor_lt below)]

/-- What work on some nodes may change: the attributes of the first, the children of the
second, and besides the children of the head, of custom stylesheets and of new nodes. -/
def amongScope (tree : Tree) (written receiving : List NodeId) : Scope :=
  ⟨(· ∈ written), fun id =>
    tree.size ≤ id ∨ id ∈ receiving ∨ tree.head? = some id ∨ tree.IsCustomStyle id⟩

section Among

variable {scope : Scope} {added : Element → Prop} {tree after : Tree} {html id : NodeId}
  {written receiving : List NodeId}

/-- Work on some of the nodes that may be changed. -/
theorem Site.among (site : Site scope tree html) (writes : ∀ id ∈ written, scope.written id)
    (gives : ∀ id ∈ receiving, scope.given id) :
    Site (tree.amongScope written receiving) tree html := by
  have receives : ∀ {id}, (tree.amongScope written receiving).given id → scope.given id := by
    rintro id (isNew | member | isHead | custom)
    · exact site.newReceives isNew
    · exact gives id member
    · exact site.headReceives isHead
    · exact site.receives_of_isCustomStyle custom
  refine
    { forest := site.forest
      html? := site.html?
      rootApart := fun given => site.rootApart (receives given)
      htmlApart := fun given => site.htmlApart (receives given)
      headReceives := fun isHead => .inr (.inr (.inl isHead))
      styleReceives := fun isHead below marked => .inr (.inr (.inr ⟨_, isHead, below, marked⟩))
      newReceives := .inl
      writtenInside := fun id member => site.writtenInside id (writes id member)
      writtenPlain := fun member => site.writtenPlain (writes _ member) }

/-- A node that is neither a style nor a head keeps its children during work on others. -/
theorem Grows.children_among (grows : Grows (tree.amongScope written receiving) added tree after)
    (inside : id < tree.size) (apart : id ∉ receiving)
    (noStyle : tree.isTagged id "style" = false) (noHead : tree.isTagged id "head" = false) :
    after.children id = tree.children id := by
  refine grows.children inside ?_
  rintro (isNew | member | isHead | ⟨_, _, _, marked⟩)
  · exact Nat.not_lt_of_le isNew inside
  · exact apart member
  · exact ne_of_head? isHead noHead rfl
  · rw [isTagged_style_of_isStyleMarked marked] at noStyle
    exact absurd noStyle (by simp)

/-- While it keeps its tag, an extension element is neither a style nor a head nor a script. -/
theorem IsExtension.untagged (extension : tree.IsExtension id)
    (same : after.tag? id = tree.tag? id) : after.isTagged id "style" = false ∧
      after.isTagged id "head" = false ∧ after.isTagged id "script" = false := by
  rw [isTagged_congr same, isTagged_congr same, isTagged_congr same]
  exact ⟨extension.isTagged_eq_false (by with_unfolding_all decide),
    extension.isTagged_eq_false (by with_unfolding_all decide),
    extension.isTagged_eq_false (by with_unfolding_all decide)⟩

end Among

end Tree

/-! ## Findings about one node -/

/-- The kinds of the findings about a node, oldest first. -/
def Report.kindsAbout (report : Report) (id : NodeId) : List FindingKind :=
  (report.toList.filter (·.element? == some id)).map (·.kind)

namespace Rendering

section Findings

variable {state : Rendering} {id other : NodeId}

theorem kindsAbout_note (state : Rendering) (id : NodeId) (kind : FindingKind) (message : String) :
    (state.note id kind message).report.kindsAbout id = state.report.kindsAbout id ++ [kind] := by
  simp [note, Report.push, Report.kindsAbout, Finding.about]

theorem kindsAbout_note_of_ne (different : other ≠ id) (kind : FindingKind) (message : String) :
    (state.note other kind message).report.kindsAbout id = state.report.kindsAbout id := by
  simp [note, Report.push, Report.kindsAbout, Finding.about, different]

theorem kindsAbout_block (state : Rendering) (id : NodeId) (cause : BoilerplateNeed)
    (message : String) :
    (state.block id cause message).report.kindsAbout id =
      state.report.kindsAbout id ++ [.boilerplateStays cause] :=
  kindsAbout_note state id _ message

theorem kindsAbout_block_of_ne (different : other ≠ id) (cause : BoilerplateNeed)
    (message : String) :
    (state.block other cause message).report.kindsAbout id = state.report.kindsAbout id :=
  kindsAbout_note_of_ne different _ message

theorem kindsAbout_checkExperiment_of_ne (different : other ≠ id) :
    (state.checkExperiment other).report.kindsAbout id = state.report.kindsAbout id := by
  unfold checkExperiment
  split
  next => exact kindsAbout_block_of_ne different _ _
  next => rfl

theorem kindsAbout_checkAudio_of_ne (different : other ≠ id) :
    (state.checkAudio other).report.kindsAbout id = state.report.kindsAbout id := by
  unfold checkAudio
  split
  next => exact kindsAbout_block_of_ne different _ _
  next => rfl

theorem kindsAbout_treat_of_ne (different : other ≠ id) :
    (state.treat other).report.kindsAbout id = state.report.kindsAbout id := by
  have failure : ∀ (state : Rendering) (problem : RenderingProblem) (text : String)
      (cause : BoilerplateNeed) (message : String),
      ((state.note other (.notRendered problem) text).block other cause message).report.kindsAbout
        id = state.report.kindsAbout id :=
    fun state problem text cause message =>
      (kindsAbout_block_of_ne different cause message).trans
        (kindsAbout_note_of_ne different _ text)
  unfold treat layOut
  dsimp only
  split
  next =>
    split
    next => rfl
    next => exact failure _ _ _ _ _
  next => exact failure _ _ _ _ _

/-- A visit speaks of the visited element only. -/
theorem kindsAbout_visit_of_ne (different : other ≠ id) :
    (state.visit other).report.kindsAbout id = state.report.kindsAbout id := by
  unfold visit
  split
  next => rfl
  next =>
    rw [kindsAbout_treat_of_ne different, kindsAbout_checkAudio_of_ne different,
      kindsAbout_checkExperiment_of_ne different]

theorem kindsAbout_checkScript_of_ne (registry : ScriptRegistry) (different : other ≠ id) :
    (checkScript registry state other).report.kindsAbout id = state.report.kindsAbout id := by
  unfold checkScript
  split
  next => exact kindsAbout_block_of_ne different _ _
  next => rfl

/-- Steps on other nodes say nothing about a node. -/
theorem kindsAbout_foldl {step : Rendering → NodeId → Rendering}
    (single : ∀ state other, other ≠ id →
      (step state other).report.kindsAbout id = state.report.kindsAbout id)
    {ids : List NodeId} (apart : id ∉ ids) (state : Rendering) :
    (ids.foldl step state).report.kindsAbout id = state.report.kindsAbout id := by
  induction ids generalizing state with
  | nil => rfl
  | cons first rest ih =>
      rw [List.mem_cons, not_or] at apart
      rw [List.foldl_cons, ih apart.2, single state first (Ne.symm apart.1)]

end Findings

/-! ## Visits of others -/

section Visits

variable {scope : Scope} {state : Rendering} {html id : NodeId} {ids : List NodeId}

/-- Visits of others leave a node alone that is neither a style nor a head. -/
theorem visits_sameAt (site : state.tree.Site scope html)
    (settled : state.budget.Settled state.tree)
    (reached : ∀ id ∈ ids, scope.written id ∧ scope.given id) (inside : id < state.tree.size)
    (apart : id ∉ ids) (noStyle : state.tree.isTagged id "style" = false)
    (noHead : state.tree.isTagged id "head" = false) :
    state.tree.SameAt (ids.foldl visit state).tree id := by
  have among := site.among (fun other member => (reached other member).1)
    fun other member => (reached other member).2
  have lands := visits_lands ids among settled fun other member => ⟨member, .inr (.inl member)⟩
  exact ⟨lands.grows.element? inside apart,
    lands.grows.children_among inside apart noStyle noHead⟩

end Visits

/-! ## After the visits -/

section After

variable {state : Rendering} {html head id : NodeId}

/-- The place for the style of the runtime changes the children of the head only. -/
theorem addRuntimeStyle_sameAt (forest : state.tree.Forest) (headInside : head < state.tree.size)
    (inside : id < state.tree.size) (noHead : id ≠ head) :
    state.tree.SameAt (state.addRuntimeStyle head).tree id := by
  have creates : Tree.Creates ⟨fun _ => False, (· = head)⟩ Element.Plain state.tree
      (state.tree.createElement "style" [("amp-runtime", "")]) :=
    (Tree.Grows.refl forest).createElement runtimeStyle_plain
  have attached := creates.grows.forest.attached_prepend
    (Nat.lt_of_lt_of_le headInside creates.grows.size_le) creates.inside
  have grows := creates.grows.attach forest creates.isNew (fun _ => rfl) attached
  exact ⟨grows.element? inside not_false, grows.children inside noHead⟩

/-- A decision for the boilerplate is not taken back by the scripts. -/
theorem needsBoilerplate_checkScripts (registry : ScriptRegistry)
    (needs : state.needsBoilerplate = true) :
    (checkScripts registry state head).needsBoilerplate = true := by
  obtain ⟨added, notes⟩ := foldl_notes (fun state id => checkScript_notes state id registry)
    (state.tree.elementsBelow head fun _ element =>
      element.tag == "script" && element.attributes.contains elementScriptAttribute) state
  have later := notes.needs
  rw [needs, Bool.true_or] at later
  exact later

/-- The scripts of the head are all that is spoken of after the visits. -/
theorem kindsAbout_checkScripts (registry : ScriptRegistry)
    (noScript : state.tree.isTagged id "script" = false) :
    (checkScripts registry state head).report.kindsAbout id = state.report.kindsAbout id := by
  refine kindsAbout_foldl (fun state other => kindsAbout_checkScript_of_ne registry) ?_ state
  intro member
  obtain ⟨-, isScript⟩ := List.mem_filter.mp member
  obtain ⟨element, found, tagged⟩ := (Option.any_eq_true _ _).mp isScript
  obtain ⟨tagged, -⟩ := Bool.and_eq_true_iff.mp tagged
  rw [Tree.isTagged, Tree.tag?, found, Option.map_some, Option.any_some,
    beq_iff_eq.mp tagged] at noScript
  exact absurd noScript (by with_unfolding_all decide)

end After

section Run

variable {state : Rendering} {html head : NodeId} (forest : state.tree.Forest)
  (found : state.tree.html? = some html) (settled : state.budget.Settled state.tree)
  (registry : ScriptRegistry)
include forest found settled

/-- Up to the decision about the boilerplate, a node other than the head keeps what the
visits have made of it. -/
theorem prepared_sameAt (headFound : state.tree.head? = some head) {id : NodeId}
    (inside : id < (state.marked html).visitAll.tree.size) (noHead : id ≠ head) :
    (state.marked html).visitAll.tree.SameAt (state.prepared registry html head).tree id := by
  have visited := visitAll_lands forest found settled
  have visitedSite := (markedSite forest found).grown visited.grows
  have visitedHead := (head?_visitAll forest found settled).trans headFound
  have headInside := Tree.lt_size_of_isTagged (Tree.isTagged_of_head? visitedHead)
  rw [prepared, (checkScripts_eq registry _ head).1]
  exact addRuntimeStyle_sameAt visitedSite.forest headInside inside noHead

/-- **What comes after the visits.** A node that is neither the html element nor the head
keeps its tag and attributes, and of its children it loses boilerplate below the head at
most, and nothing at all if the boilerplate is needed. -/
theorem run_readings : ∃ dropped : List NodeId,
    (∀ node ∈ dropped, state.tree.IsBoilerplate node ∧
      ∃ head, state.tree.head? = some head ∧ state.tree.Below node head) ∧
    ((state.marked html).visitAll.needsBoilerplate = true → dropped = []) ∧
    ∀ id < (state.marked html).visitAll.tree.size, id ≠ html →
      (state.marked html).visitAll.tree.isTagged id "head" = false →
      (state.marked html).visitAll.tree.LosesAt (run registry state html).tree dropped id := by
  cases headFound : state.tree.head? with
  | none =>
      rw [run_headless forest found settled registry headFound]
      exact ⟨[], by simp, fun _ => rfl, fun id _ _ _ => Tree.losesAt_nil_iff.mpr (.refl _ id)⟩
  | some head =>
      have visitedHead := (head?_visitAll forest found settled).trans headFound
      have differs : ∀ {id}, (state.marked html).visitAll.tree.isTagged id "head" = false →
          id ≠ head := Tree.ne_of_head? visitedHead
      cases needs : (state.prepared registry html head).needsBoilerplate with
      | true =>
          rw [run_of_needed forest found headFound settled registry needs]
          refine ⟨[], by simp, fun _ => rfl, fun id inside _ noHead => ?_⟩
          exact Tree.losesAt_nil_iff.mpr
            (prepared_sameAt forest found settled registry headFound inside (differs noHead))
      | false =>
          obtain ⟨ids, swept⟩ := run_swept forest found headFound settled registry needs
          refine ⟨ids, fun node member => ?_, fun visited => ?_, fun id inside noHtml noHead => ?_⟩
          · obtain ⟨below, boilerplate⟩ := swept.mem_iff.mp member
            exact ⟨boilerplate, head, rfl, below⟩
          · have later : (state.prepared registry html head).needsBoilerplate = true :=
              needsBoilerplate_checkScripts registry visited
            rw [needs] at later
            exact absurd later (by simp)
          · have same := prepared_sameAt forest found settled registry headFound inside
              (differs noHead)
            have links := unswept_sameLinks registry state html head
            constructor
            · rw [Tree.element?_congr (swept.pruned.kind? id), unswept, Tree.setAttribute,
                Tree.element?_modifyAttributes, if_neg noHtml, same.element?]
            · rw [swept.pruned.children, links.children, same.children]

/-- After the visits nothing is said about an element that is no script. -/
theorem kindsAbout_run {id : NodeId} (inside : id < (state.marked html).visitAll.tree.size)
    (noScript : (state.marked html).visitAll.tree.isTagged id "script" = false)
    (noHead : (state.marked html).visitAll.tree.isTagged id "head" = false) :
    (run registry state html).report.kindsAbout id =
      (state.marked html).visitAll.report.kindsAbout id := by
  cases headFound : state.tree.head? with
  | none => rw [run_headless forest found settled registry headFound]
  | some head =>
      have visited := visitAll_lands forest found settled
      have visitedSite := (markedSite forest found).grown visited.grows
      have visitedHead := (head?_visitAll forest found settled).trans headFound
      have isHead := Tree.isTagged_of_head? visitedHead
      have differs : id ≠ head := Tree.ne_of_head? visitedHead noHead
      have same : (state.marked html).visitAll.tree.SameAt
          ((state.marked html).visitAll.addRuntimeStyle head).tree id :=
        addRuntimeStyle_sameAt visitedSite.forest (Tree.lt_size_of_isTagged isHead) inside differs
      rw [run_eq forest found headFound settled registry, dropBoilerplate_report, prepared,
        kindsAbout_checkScripts registry ((same.isTagged "script").trans noScript)]
      rfl

end Run

end Rendering

end FirstPaint
