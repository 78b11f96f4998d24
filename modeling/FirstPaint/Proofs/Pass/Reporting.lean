import FirstPaint.Proofs.Pass.Visiting

/-!
# What rendering reports

Every step of rendering adds findings at the end of the report, and it decides that
the boilerplate is needed exactly if one of the findings it adds says that the
boilerplate stays (`Rendering.Notes`). A finding that an element could not be rendered
never comes alone: the next finding says that the boilerplate stays because of the
same element (`FollowedUp`).
-/

set_option autoImplicit false

namespace FirstPaint

/-- The finding says that the boilerplate stays. -/
def Finding.isNeed (finding : Finding) : Bool :=
  match finding.kind with
  | .boilerplateStays _ => true
  | .notRendered _ => false

/-- In a list of findings, each one about an element that could not be rendered is
followed at once by one that the boilerplate stays because of that element. -/
inductive FollowedUp : List Finding → Prop where
  | nil : FollowedUp []
  | need {finding : Finding} {rest : List Finding} (stays : finding.isNeed = true)
      (others : FollowedUp rest) : FollowedUp (finding :: rest)
  | failure {finding next : Finding} {rest : List Finding} {id : NodeId}
      (about : finding.element? = some id) (same : next.element? = some id)
      (stays : next.isNeed = true) (others : FollowedUp rest) :
      FollowedUp (finding :: next :: rest)

namespace FollowedUp

theorem append {first second : List Finding} (earlier : FollowedUp first)
    (later : FollowedUp second) : FollowedUp (first ++ second) := by
  induction earlier with
  | nil => exact later
  | need stays _ ih => exact .need stays ih
  | failure about same stays _ ih => exact .failure about same stays ih

/-- What comes after a finding that is no need. -/
theorem next {added : List Finding} (followed : FollowedUp added) {index : Nat}
    {finding : Finding} (found : added[index]? = some finding) (fails : finding.isNeed = false) :
    ∃ next id, added[index + 1]? = some next ∧ next.isNeed = true ∧
      finding.element? = some id ∧ next.element? = some id := by
  induction followed generalizing index with
  | nil => exact absurd found (by simp)
  | @need first rest stays _ ih =>
      cases index with
      | zero =>
          obtain rfl : first = finding := by simpa using found
          rw [stays] at fails
          exact absurd fails (by simp)
      | succ index =>
          obtain ⟨next, id, known, rest⟩ := ih (by simpa using found)
          exact ⟨next, id, by simpa using known, rest⟩
  | @failure first second rest id about same stays _ ih =>
      cases index with
      | zero =>
          obtain rfl : first = finding := by simpa using found
          exact ⟨second, id, rfl, stays, about, same⟩
      | succ index =>
          cases index with
          | zero =>
              obtain rfl : second = finding := by simpa using found
              rw [stays] at fails
              exact absurd fails (by simp)
          | succ index =>
              obtain ⟨next, id, known, rest⟩ := ih (by simpa using found)
              exact ⟨next, id, by simpa using known, rest⟩

end FollowedUp

namespace Rendering

/-- A step has added findings, and it agrees with them about the boilerplate. -/
structure Notes (before after : Rendering) (added : List Finding) : Prop where
  report : after.report.toList = before.report.toList ++ added
  needs : after.needsBoilerplate = (before.needsBoilerplate || added.any Finding.isNeed)
  followed : FollowedUp added

namespace Notes

variable {before middle after : Rendering} {first second : List Finding}

/-- A step that reports nothing and decides nothing. -/
theorem silent (report : after.report = before.report)
    (needs : after.needsBoilerplate = before.needsBoilerplate) : Notes before after [] where
  report := by rw [report, List.append_nil]
  needs := by rw [needs, List.any_nil, Bool.or_false]
  followed := .nil

theorem trans (earlier : Notes before middle first) (later : Notes middle after second) :
    Notes before after (first ++ second) where
  report := by rw [later.report, earlier.report, List.append_assoc]
  needs := by rw [later.needs, earlier.needs, List.any_append, Bool.or_assoc]
  followed := earlier.followed.append later.followed

theorem block (state : Rendering) (id : NodeId) (cause : BoilerplateNeed) (message : String) :
    Notes state (state.block id cause message)
      [.about state.tree id (.boilerplateStays cause) message] where
  report := rfl
  needs := by simp [Rendering.block, Finding.about, Finding.isNeed]
  followed := .need rfl .nil

/-- A problem with an element that is reported together with its consequence. -/
theorem failure (state : Rendering) (id : NodeId) (problem : RenderingProblem) (text : String)
    (cause : BoilerplateNeed) (message : String) :
    Notes state ((state.note id (.notRendered problem) text).block id cause message)
      [.about state.tree id (.notRendered problem) text,
        .about state.tree id (.boilerplateStays cause) message] where
  report := by
    simp [Rendering.block, Rendering.note, Report.push]
  needs := by simp [Rendering.block, Rendering.note, Finding.about, Finding.isNeed]
  followed := .failure rfl rfl rfl .nil

end Notes

section Steps

variable (state : Rendering) (id : NodeId)

theorem checkExperiment_notes : ∃ added, Notes state (state.checkExperiment id) added := by
  unfold checkExperiment
  split
  next => exact ⟨_, .block state id .experiment _⟩
  next => exact ⟨[], .silent rfl rfl⟩

theorem checkAudio_notes : ∃ added, Notes state (state.checkAudio id) added := by
  unfold checkAudio
  split
  next => exact ⟨_, .block state id .audio _⟩
  next => exact ⟨[], .silent rfl rfl⟩

theorem layOut_notes (sized : Bool) : ∃ added, Notes state (state.layOut id sized) added := by
  unfold layOut
  split
  next => exact ⟨[], .silent rfl rfl⟩
  next problem _ => exact ⟨_, .failure state id problem.cause problem.message _ _⟩

theorem treat_notes : ∃ added, Notes state (state.treat id) added := by
  have moved : ∀ (tree : Tree) (budget : Budget),
      Notes state { state with tree := tree, budget := budget } [] := by
    intro tree budget
    exact .silent rfl rfl
  unfold treat
  simp only
  split
  next =>
    obtain ⟨added, laid⟩ := layOut_notes
      { state with
        tree := (moveToStylesheet state.budget state.tree id).tree
        budget := (moveToStylesheet state.budget state.tree id).budget }
      id (hasConditionalSizes state.tree id)
    exact ⟨_, (moved _ _).trans laid⟩
  next problem _ =>
    exact ⟨_, (moved _ _).trans (.failure _ id problem.cause problem.message _ _)⟩

theorem visit_notes : ∃ added, Notes state (state.visit id) added := by
  unfold visit
  split
  next => exact ⟨[], .silent rfl rfl⟩
  next =>
    obtain ⟨_, experiment⟩ := checkExperiment_notes state id
    obtain ⟨_, audio⟩ := checkAudio_notes (state.checkExperiment id) id
    obtain ⟨_, treated⟩ := treat_notes ((state.checkExperiment id).checkAudio id) id
    exact ⟨_, (experiment.trans audio).trans treated⟩

theorem checkScript_notes (registry : ScriptRegistry) :
    ∃ added, Notes state (checkScript registry state id) added := by
  unfold checkScript
  split
  next => exact ⟨_, .block state id .renderDelayingScript _⟩
  next => exact ⟨[], .silent rfl rfl⟩

end Steps

/-- Findings add up over a run of steps. -/
theorem foldl_notes {step : Rendering → NodeId → Rendering}
    (single : ∀ state id, ∃ added, Notes state (step state id) added) (ids : List NodeId)
    (state : Rendering) : ∃ added, Notes state (ids.foldl step state) added := by
  induction ids generalizing state with
  | nil => exact ⟨[], .silent rfl rfl⟩
  | cons id rest ih =>
      obtain ⟨_, first⟩ := single state id
      obtain ⟨_, others⟩ := ih (step state id)
      exact ⟨_, first.trans others⟩

theorem prepared_notes (registry : ScriptRegistry) (state : Rendering) (html head : NodeId) :
    ∃ added, Notes state (state.prepared registry html head) added := by
  have marking : Notes state (state.marked html) [] := .silent rfl rfl
  obtain ⟨_, visits⟩ :=
    foldl_notes visit_notes (state.marked html).extensions (state.marked html)
  have styling : Notes (state.marked html).visitAll
      ((state.marked html).visitAll.addRuntimeStyle head) [] := .silent rfl rfl
  obtain ⟨_, scripts⟩ := foldl_notes (fun state id => checkScript_notes state id registry)
    (((state.marked html).visitAll.addRuntimeStyle head).tree.elementsBelow head fun _ element =>
      element.tag == "script" && element.attributes.contains elementScriptAttribute)
    ((state.marked html).visitAll.addRuntimeStyle head)
  exact ⟨_, ((marking.trans visits).trans styling).trans scripts⟩

end Rendering

end FirstPaint
