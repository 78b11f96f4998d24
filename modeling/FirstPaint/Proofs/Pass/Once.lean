import FirstPaint.Pass.Pipeline
import FirstPaint.Proofs.Document.Calls
import FirstPaint.Proofs.Pass.Reordering
import FirstPaint.Proofs.Pass.Sweeping

/-!
# Rendering happens once

A document that has been rendered is marked at its html element, unless it has none.
A marked document is left alone by every further rendering, with whatever registry and
budget (`renderAhead_of_marked`). Ordering the head keeps the html element, its mark
and the head, so this stays true however the two passes alternate
(`rendered_once`).
-/

set_option autoImplicit false

namespace FirstPaint

/-- The html element, if there is one, carries the mark of treated documents. -/
def Tree.Marked (tree : Tree) : Prop :=
  ∀ html, tree.html? = some html → tree.hasAttribute html layoutMarker = true

/-- A pass over a document that has been rendered. Its budget may come from any earlier
use. -/
inductive LaterPass where
  | render (registry : ScriptRegistry) (budget : Budget)
  | order (registry : ScriptRegistry)

namespace LaterPass

/-- What a pass makes of a document and its report. -/
def run : LaterPass → Optimized → Optimized
  | render registry budget, state =>
    let rendered := renderAhead registry budget state.report state.tree
    { tree := rendered.tree, report := rendered.report }
  | order registry, state => { state with tree := orderHead registry state.tree }

/-- Passes one after another. -/
def runAll (passes : List LaterPass) (state : Optimized) : Optimized :=
  passes.foldl (fun state pass => pass.run state) state

end LaterPass

theorem renderAhead_of_marked {tree : Tree} (marked : tree.Marked) (registry : ScriptRegistry)
    (budget : Budget) (report : Report) :
    renderAhead registry budget report tree = { tree, budget, report } := by
  cases found : tree.html? with
  | none => simp only [renderAhead, found]
  | some html => simp only [renderAhead, found, marked html found, if_true]

open Rendering

/-- The first rendering leaves a marked forest. -/
theorem renderAhead_marked {tree : Tree} (forest : tree.Forest) (registry : ScriptRegistry)
    (limit : Nat) (report : Report) :
    (renderAhead registry { limit } report tree).tree.Forest ∧
      (renderAhead registry { limit } report tree).tree.Marked := by
  cases found : tree.html? with
  | none =>
      have same : renderAhead registry { limit } report tree =
          { tree, budget := { limit }, report } := by
        simp only [renderAhead, found]
      rw [same]
      refine ⟨forest, ?_⟩
      intro html other
      rw [found] at other
      exact absurd other (by simp)
  | some html =>
      cases present : tree.hasAttribute html layoutMarker with
      | true =>
          have marked : tree.Marked := by
            intro other otherFound
            rw [found] at otherFound
            cases otherFound
            exact present
          rw [renderAhead_of_marked marked]
          exact ⟨forest, marked⟩
      | false =>
          have before : (start limit report tree).tree.Forest := forest
          have settled := start_settled limit report tree
          rw [(renderAhead_eq registry limit report found present).1]
          cases headFound : tree.head? with
          | none =>
              have visited := visitAll_lands before found settled
              rw [run_headless before found settled registry headFound]
              refine ⟨visited.grows.forest, ?_⟩
              intro other otherFound
              rw [(markedSite before found).html?_of_grows visited.grows] at otherFound
              cases otherFound
              rw [hasAttribute_of_grows before found visited.grows]
              simp
          | some head =>
              obtain ⟨after, htmlStays, -⟩ := run_stays before found headFound settled registry
              refine ⟨after, ?_⟩
              intro other otherFound
              rw [htmlStays] at otherFound
              cases otherFound
              rw [hasAttribute_run before found headFound settled registry]
              simp

/-- A document after further passes, compared with the one that was rendered. -/
structure Since (first now : Tree) : Prop where
  forest : now.Forest
  marked : now.Marked
  headless : first.head? = none → now = first
  headOnly : ∀ {head}, first.head? = some head →
    first.HeadOnly now head ∧ now.head? = some head

namespace Since

variable {first now : Tree}

theorem refl (forest : first.Forest) (marked : first.Marked) : Since first first where
  forest := forest
  marked := marked
  headless _ := rfl
  headOnly found := ⟨.refl forest _, found⟩

/-- Ordering the head once more. -/
theorem order (since : Since first now) (forest : first.Forest) (registry : ScriptRegistry) :
    Since first (orderHead registry now) := by
  cases headFound : first.head? with
  | none =>
      have same := since.headless headFound
      have still : orderHead registry now = first := by
        simp only [orderHead, same, headFound]
      rw [still]
      exact .refl forest (same ▸ since.marked)
  | some head =>
      obtain ⟨before, nowFound⟩ := since.headOnly headFound
      have ordered := orderHead_headOnly registry since.forest nowFound
      obtain ⟨html, htmlFound, -⟩ := since.forest.exists_html_of_head? nowFound
      refine ⟨ordered.forest, ?_, fun none => absurd (headFound.symm.trans none) (by simp), ?_⟩
      · intro other otherFound
        rw [ordered.html? since.forest htmlFound nowFound] at otherFound
        cases otherFound
        rw [Tree.hasAttribute_congr (ordered.kind? html)]
        exact since.marked html htmlFound
      · intro other otherFound
        rw [headFound] at otherFound
        cases otherFound
        exact ⟨before.trans forest ordered, ordered.head? since.forest htmlFound nowFound⟩

end Since

namespace LaterPass

variable {first : Optimized} (forest : first.tree.Forest)
include forest

/-- A pass changes the order of the head at most, and it reports nothing. -/
theorem run_since (pass : LaterPass) {state : Optimized} (since : Since first.tree state.tree)
    (report : state.report = first.report) :
    Since first.tree (pass.run state).tree ∧ (pass.run state).report = first.report := by
  cases pass with
  | render registry budget =>
      simp only [run, renderAhead_of_marked since.marked]
      exact ⟨since, report⟩
  | order registry => exact ⟨since.order forest registry, report⟩

theorem runAll_since (passes : List LaterPass) {state : Optimized}
    (since : Since first.tree state.tree) (report : state.report = first.report) :
    Since first.tree (runAll passes state).tree ∧
      (runAll passes state).report = first.report := by
  induction passes generalizing state with
  | nil => exact ⟨since, report⟩
  | cons pass rest ih =>
      obtain ⟨next, nextReport⟩ := run_since forest pass since report
      exact ih next nextReport

/-- Whatever passes have been run, a rendering now changes nothing. -/
theorem render_runAll (marked : first.tree.Marked) (passes : List LaterPass)
    (registry : ScriptRegistry) (budget : Budget) :
    (render registry budget).run (runAll passes first) = runAll passes first := by
  obtain ⟨since, -⟩ := runAll_since forest passes (.refl forest marked) rfl
  simp only [run, renderAhead_of_marked since.marked]

end LaterPass

/-- At most the children of the head and the links of its former children upwards
differ. -/
structure Tree.SameApartFromHead (before after : Tree) : Prop extends
    before.SameContent after where
  children : ∀ {id}, before.head? ≠ some id → after.children id = before.children id
  parent? : ∀ {id}, (∀ head, before.head? = some head → id ∉ before.children head) →
    after.parent? id = before.parent? id

theorem Since.sameApartFromHead {first now : Tree} (since : Since first now) :
    first.SameApartFromHead now := by
  cases headFound : first.head? with
  | none =>
      rw [since.headless headFound]
      exact ⟨.refl _, fun _ => rfl, fun _ => rfl⟩
  | some head =>
      obtain ⟨only, -⟩ := since.headOnly headFound
      refine ⟨only.toSameContent, ?_, ?_⟩
      · intro id different
        refine only.children ?_
        rintro rfl
        exact different headFound
      · intro id apart
        exact only.parent? (apart head headFound)

/-- **Rendering happens once.** After a first rendering of any document, let rendering
and the ordering of the head follow in any sequence, with any registries and budgets.
Every further rendering leaves document and report exactly as it finds them. Over the
whole sequence nothing is reported, and at most the children of the head and the links
of its former children upwards change. -/
theorem rendered_once {tree : Tree} (reachable : tree.Reachable) (registry : ScriptRegistry)
    (limit : Nat) (report : Report) (passes : List LaterPass) :
    let rendered := renderAhead registry { limit } report tree
    let first : Optimized := { tree := rendered.tree, report := rendered.report }
    (∀ earlier later registry budget, passes = earlier ++ .render registry budget :: later →
      (LaterPass.render registry budget).run (LaterPass.runAll earlier first) =
        LaterPass.runAll earlier first) ∧
    (LaterPass.runAll passes first).report = first.report ∧
    first.tree.SameApartFromHead (LaterPass.runAll passes first).tree := by
  intro rendered first
  obtain ⟨forest, marked⟩ : first.tree.Forest ∧ first.tree.Marked :=
    renderAhead_marked reachable.forest registry limit report
  obtain ⟨since, same⟩ := LaterPass.runAll_since forest passes (.refl forest marked) rfl
  refine ⟨?_, same, since.sameApartFromHead⟩
  intro earlier later registry budget _
  exact LaterPass.render_runAll forest marked earlier registry budget

/-- A document whose head has its character set behind a title. -/
def Tree.titledTree : Tree :=
  Tree.built [.createElement "html" [], .append root 1, .createElement "head" [], .append 1 2,
    .createElement "title" [], .append 2 3, .createElement "meta" [("charset", "utf-8")],
    .append 2 4]

/-- Two orderings with a rendering between them. -/
def laterPasses : List LaterPass :=
  [.order .published, .render .published { limit := 0 }, .order .published]

theorem rendered_once_titledTree :
    let rendered := renderAhead .published { limit := 75000 } ∅ Tree.titledTree
    let first : Optimized := { tree := rendered.tree, report := rendered.report }
    let last := LaterPass.runAll laterPasses first
    first.tree.children 2 = [5, 3, 4] ∧ last.tree.children 2 = [4, 5, 3] ∧
      first.tree.SameApartFromHead last.tree := by
  intro rendered first last
  have reachable : Tree.titledTree.Reachable := by
    unfold Tree.titledTree
    exact Tree.reachable_built (by decide +kernel)
  obtain ⟨-, -, same⟩ := rendered_once reachable .published 75000 ∅ laterPasses
  exact ⟨by decide +kernel, by decide +kernel, same⟩

end FirstPaint
