import FirstPaint.Proofs.Document.Calls
import FirstPaint.Proofs.Pass.Reporting
import FirstPaint.Proofs.Pass.Sweeping

/-!
# The verdict on the boilerplate

Rendering marks a document as free of boilerplate exactly if it has not reported that
the boilerplate stays. Until that is decided no node loses its parent. Then a marked
document loses all boilerplate below its head and nothing else (`Tree.Freed`), and a
document that is not marked is left as it is. What was reported before stays in front
of the new findings.
-/

set_option autoImplicit false

namespace FirstPaint

/-- What the input has of boilerplate below the head has been detached, and nothing else
that was linked when the sweep began, be it from the input or added to it. -/
structure Tree.Freed (input ready after : Tree) (head : NodeId) : Prop where
  clean : ∀ {id}, after.Below id head → ¬ after.IsBoilerplate id
  detached : ∀ {id}, input.Below id head → input.IsBoilerplate id → after.parent? id = none
  kept : ∀ {id}, ¬ (input.Below id head ∧ input.IsBoilerplate id) →
    after.parent? id = ready.parent? id

namespace Rendering

theorem Swept.freed {input ready middle after : Tree} {html head : NodeId} {ids : List NodeId}
    (swept : Swept input middle after html head ids) (same : Tree.SameLinks ready middle) :
    input.Freed ready after head where
  clean {id} below boilerplate := by
    have notListed := ((swept.pruned.below_iff swept.grows.forest).mp below).2 id
      ⟨.inl rfl, swept.pruned.below_of_below below⟩
    refine notListed (swept.listed.mpr ⟨swept.pruned.below_of_below below, ?_⟩)
    exact (Tree.isBoilerplate_congr (Tree.element?_congr (swept.pruned.kind? id))).mp boilerplate
  detached {id} below boilerplate := by
    rw [swept.pruned.parent?, if_pos (swept.mem_iff.mpr ⟨below, boilerplate⟩)]
  kept {id} apart := by
    rw [swept.pruned.parent?, if_neg fun member => apart (swept.mem_iff.mp member), same.parent?]

theorem dropBoilerplate_report (state : Rendering) (html head : NodeId) :
    (state.dropBoilerplate html head).report = state.report := by
  unfold dropBoilerplate
  split
  next => rfl
  next => rfl

end Rendering

open Rendering

/-- **The verdict agrees with the report.** Rendering adds findings to the report and
marks the html element as free of boilerplate exactly if none of them says that the
boilerplate stays. No node has lost its parent when this is decided. With the mark, all
boilerplate below the head goes and nothing else is detached; without it, nothing is.
An element that could not be rendered is named by two findings in a row. -/
theorem boilerplate_verdict {tree : Tree} {html head : NodeId} (registry : ScriptRegistry)
    (limit : Nat) (report : Report) (reachable : tree.Reachable) (found : tree.html? = some html)
    (headFound : tree.head? = some head) (unmarked : tree.hasAttribute html layoutMarker = false)
    (boilerplate : tree.hasAttribute html noBoilerplateMarker = false) :
    let ready := ((start limit report tree).prepared registry html head).tree
    let final := renderAhead registry { limit } report tree
    ∃ added, final.report.toList = report.toList ++ added ∧ final.tree.head? = some head ∧
      (final.tree.hasAttribute html noBoilerplateMarker = true ↔
        ∀ finding ∈ added, finding.isNeed = false) ∧
      (∀ id < tree.size, ready.parent? id = tree.parent? id) ∧
      (final.tree.hasAttribute html noBoilerplateMarker = true →
        tree.Freed ready final.tree head) ∧
      (final.tree.hasAttribute html noBoilerplateMarker = false → final.tree = ready) ∧
      ∀ index finding, added[index]? = some finding → finding.isNeed = false →
        ∃ next id, added[index + 1]? = some next ∧ next.isNeed = true ∧
          finding.element? = some id ∧ next.element? = some id := by
  intro ready final
  have forest : (start limit report tree).tree.Forest := reachable.forest
  have settled := start_settled limit report tree
  obtain ⟨sameTree, sameReport⟩ := renderAhead_eq registry limit report found unmarked
  obtain ⟨added, notes⟩ := prepared_notes registry (start limit report tree) html head
  have decided : final.tree.hasAttribute html noBoilerplateMarker =
      !((start limit report tree).prepared registry html head).needsBoilerplate := by
    have different : (Ascii.lower layoutMarker == Ascii.lower noBoilerplateMarker) = false := by
      decide +kernel
    have before : (start limit report tree).tree.hasAttribute html noBoilerplateMarker = false :=
      boilerplate
    rw [sameTree, hasAttribute_run forest found headFound settled registry, different, before]
    simp
  have needs : ((start limit report tree).prepared registry html head).needsBoilerplate =
      added.any Finding.isNeed := notes.needs
  refine ⟨added, ?_, ?_, ?_, ?_, ?_, ?_, ?_⟩
  · rw [sameReport, run_eq forest found headFound settled registry, dropBoilerplate_report]
    exact notes.report
  · rw [sameTree]
    exact (run_stays forest found headFound settled registry).2.2
  · rw [decided, needs]
    simp
  · exact fun id => (prepared_grows forest found registry settled headFound).parent?
  · intro marked
    have free :
        ((start limit report tree).prepared registry html head).needsBoilerplate = false := by
      rw [decided] at marked
      simpa using marked
    obtain ⟨ids, swept⟩ := run_swept forest found headFound settled registry free
    rw [sameTree]
    exact swept.freed (unswept_sameLinks registry _ html head)
  · intro unmarked
    have needed :
        ((start limit report tree).prepared registry html head).needsBoilerplate = true := by
      rw [decided] at unmarked
      simpa using unmarked
    rw [sameTree, run_of_needed forest found headFound settled registry needed]
  · exact fun index finding known fails => notes.followed.next known fails

/-- A document whose head holds a noscript element with a boilerplate style in it, boilerplate
styles with the other two markers, and a style without a marker. -/
def Tree.coveredTree : Tree :=
  Tree.built [.createElement "html" [], .append root 1, .createElement "head" [], .append 1 2,
    .createElement "noscript" [], .append 2 3, .createElement "style" [("amp-boilerplate", "")],
    .append 3 4, .createElement "style" [("amp4ads-boilerplate", "")], .append 2 5,
    .createElement "style" [("amp4email-boilerplate", "")], .append 2 6,
    .createElement "style" [("amp-custom", "")], .append 2 7, .createElement "body" [],
    .append 1 8, .createElement "amp-img" [], .append 8 9]

theorem Tree.isBoilerplate_coveredTree :
    ∀ id ∈ [3, 4, 5, 6], id ∈ coveredTree.descendants 2 ∧ coveredTree.IsBoilerplate id := by
  have listed : ∀ id ∈ [3, 4, 5, 6], id ∈ coveredTree.descendants 2 := by decide +kernel
  obtain ⟨noscript, plain, ads, email⟩ : coveredTree.element? 3 = some ⟨"noscript", ⟨[]⟩⟩ ∧
      coveredTree.element? 4 = some ⟨"style", ⟨[⟨"amp-boilerplate", ""⟩]⟩⟩ ∧
      coveredTree.element? 5 = some ⟨"style", ⟨[⟨"amp4ads-boilerplate", ""⟩]⟩⟩ ∧
      coveredTree.element? 6 = some ⟨"style", ⟨[⟨"amp4email-boilerplate", ""⟩]⟩⟩ := by
    decide +kernel
  have covered : ∀ id ∈ [3, 4, 5, 6], coveredTree.IsBoilerplate id := by
    simp only [List.forall_mem_cons, List.not_mem_nil, false_implies, implies_true, and_true]
    exact ⟨⟨_, noscript, .inl rfl⟩, ⟨_, plain, .inr ⟨rfl, .inl (by decide +kernel)⟩⟩,
      ⟨_, ads, .inr ⟨rfl, .inr (.inl (by decide +kernel))⟩⟩,
      ⟨_, email, .inr ⟨rfl, .inr (.inr (by decide +kernel))⟩⟩⟩
  exact fun id member => ⟨listed id member, covered id member⟩

/-- A document with boilerplate that has to stay: a script in the head delays rendering, an
experiment is configured, and no other extension in the body can be rendered ahead of time. -/
def Tree.delayedTree : Tree :=
  Tree.built [.createElement "html" [], .append root 1, .createElement "head" [], .append 1 2,
    .createElement "noscript" [], .append 2 3,
    .createElement "script" [("custom-element", "amp-story")], .append 2 4,
    .createElement "body" [], .append 1 5,
    .createElement "amp-img" [("layout", "fluid")], .append 5 6,
    .createElement "amp-audio" [], .append 5 7,
    .createElement "amp-img" [("heights", "(min-width:9px) ,9px")], .append 5 8,
    .createElement "amp-experiment" [], .append 5 9,
    .createElement "script" [("type", "application/json")], .append 9 10, .appendText 10 "[0]"]

/-- Where nothing is reported all boilerplate goes and the other style stays. Where something is,
all of it stays. -/
theorem boilerplate_verdict_coveredTree :
    let ready := ((start 75000 ∅ Tree.coveredTree).prepared .published 1 2).tree
    let final := renderAhead .published { limit := 75000 } ∅ Tree.coveredTree
    let delayed := renderAhead .published { limit := 75000 } ∅ Tree.delayedTree
    ((∀ id ∈ [3, 4, 5, 6], Tree.coveredTree.IsBoilerplate id ∧ final.tree.parent? id = none) ∧
      final.tree.parent? 7 = some 2 ∧ Tree.coveredTree.Freed ready final.tree 2) ∧
    (delayed.report.toList.map fun finding => (finding.element?, finding.kind)) =
      [(some 6, .notRendered .unsupportedLayout), (some 6, .boilerplateStays .unsupportedLayout),
        (some 7, .boilerplateStays .audio), (some 8, .notRendered .malformedAttribute),
        (some 8, .boilerplateStays .blockingAttributes), (some 9, .boilerplateStays .experiment),
        (some 4, .boilerplateStays .renderDelayingScript)] ∧
      delayed.tree.hasAttribute 1 noBoilerplateMarker = false ∧
      delayed.tree.parent? 3 = some 2 := by
  intro ready final delayed
  refine ⟨?_, by decide +kernel, ?_⟩
  · have reachable : Tree.coveredTree.Reachable := by
      unfold Tree.coveredTree
      exact Tree.reachable_built (by decide +kernel)
    have found : Tree.coveredTree.html? = some 1 := by decide +kernel
    have headFound : Tree.coveredTree.head? = some 2 := by decide +kernel
    obtain ⟨added, reported, -, verdict, attached, freed, -⟩ :=
      boilerplate_verdict .published 75000 ∅ reachable found headFound (by decide +kernel)
        (by decide +kernel)
    have nothing : final.report.toList = [] := by decide +kernel
    obtain ⟨-, rfl⟩ := List.append_eq_nil_iff.mp (reported.symm.trans nothing)
    have swept := freed (verdict.mpr fun finding member => absurd member List.not_mem_nil)
    refine ⟨fun id member => ?_, ?_, swept⟩
    · obtain ⟨listed, boilerplate⟩ := Tree.isBoilerplate_coveredTree id member
      have below := reachable.forest.mem_descendants_iff.mp listed
      exact ⟨boilerplate, swept.detached below boilerplate⟩
    · have plain : ¬ Tree.coveredTree.IsBoilerplate 7 := by decide +kernel
      rw [swept.kept fun marked => plain marked.2, attached 7 (by decide +kernel)]
      decide +kernel
  · have reachable : Tree.delayedTree.Reachable := by
      unfold Tree.delayedTree
      exact Tree.reachable_built (by decide +kernel)
    have found : Tree.delayedTree.html? = some 1 := by decide +kernel
    have headFound : Tree.delayedTree.head? = some 2 := by decide +kernel
    obtain ⟨added, reported, -, verdict, attached, -, stays, -⟩ :=
      boilerplate_verdict .published 75000 ∅ reachable found headFound (by decide +kernel)
        (by decide +kernel)
    have needed : delayed.report.toList.any Finding.isNeed = true := by decide +kernel
    have unmarked : delayed.tree.hasAttribute 1 noBoilerplateMarker = false := by
      rw [Bool.eq_false_iff]
      intro marked
      obtain ⟨finding, member, need⟩ := List.any_eq_true.mp needed
      rw [reported] at member
      have isNew := (List.mem_append.mp member).resolve_left List.not_mem_nil
      exact absurd (verdict.mp marked finding isNew) (by simp [need])
    refine ⟨unmarked, ?_⟩
    rw [stays unmarked, attached 3 (by decide +kernel)]
    decide +kernel

end FirstPaint
