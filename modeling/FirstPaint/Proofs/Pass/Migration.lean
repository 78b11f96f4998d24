import FirstPaint.Proofs.Document.Adding
import FirstPaint.Proofs.Document.Calls
import FirstPaint.Proofs.Pass.Sweeping

/-!
# Rules that were moved to the head

Rules that a budget accepts while a document is rendered end up in the text of its
custom stylesheet. The sweep takes every noscript element and every boilerplate style
out of the head, with all that lies in them. A custom stylesheet in such an element,
or one that is itself marked as boilerplate, goes with them, and so do the rules that
were added to it. That is the only way in which accepted rules can leave the head
(`accepted_rules_kept`).
-/

set_option autoImplicit false

namespace FirstPaint

namespace Tree

/-- Some text is part of the content of a node. -/
def Carries (tree : Tree) (id : NodeId) (css : String) : Prop :=
  css.toList <:+: (tree.textContent id).toList

section Carries

variable {tree after : Tree} {id : NodeId} {css : String}

theorem infix_join {text : String} {texts : List String} (member : text ∈ texts) :
    text.toList <:+: (String.join texts).toList := by
  obtain ⟨before, behind, rfl⟩ := List.append_of_mem member
  rw [String.join_append, String.join_cons, String.toList_append, String.toList_append]
  exact ⟨(String.join before).toList, (String.join behind).toList, by simp⟩

/-- What a text child holds is part of the content of an element. -/
theorem Forest.carries (forest : tree.Forest) (isElement : (tree.element? id).isSome = true)
    (holds : tree.HoldsText id css) : tree.Carries id css := by
  obtain ⟨text, data, link, found, infix_data⟩ := holds
  refine infix_data.trans ?_
  rw [textContent_of_element? isElement]
  refine infix_join (List.mem_filterMap.mpr ⟨text, ?_, characterData?_of_text? found⟩)
  exact forest.mem_descendants_iff.mpr (below_of_parent? link)

end Carries

end Tree

namespace Rendering

namespace Swept

variable {start middle after : Tree} {html head style : NodeId} {ids : List NodeId} {css : String}
  (swept : Swept start middle after html head ids)
include swept

/-- Text is never swept away from its parent. -/
theorem holdsText (holds : middle.HoldsText style css) : after.HoldsText style css := by
  obtain ⟨text, data, link, found, infix_data⟩ := holds
  have stays : text ∉ ids := by
    intro member
    have boilerplate := (swept.mem_iff.mp member).2
    have isElement := swept.grows.element?_isSome boilerplate.lt_size
    obtain ⟨element, known, -⟩ := boilerplate
    rw [known, Tree.element?, Tree.text?_eq_some_iff.mp found] at isElement
    exact absurd isElement (by simp)
  refine ⟨text, data, ?_, ?_, infix_data⟩
  · rw [swept.pruned.parent?, if_neg stays, link]
  · rw [Tree.text?, swept.pruned.kind?, Tree.text?_eq_some_iff.mp found]

/-- A stylesheet of the head is swept away exactly if in the input it lies in
boilerplate or is boilerplate itself. One that was created is a child of the head. -/
theorem below_iff (forest : start.Forest) (below : middle.Below style head)
    (origin : style < start.size ∨ middle.parent? style = some head) :
    after.Below style head ↔
      ¬ ∃ node, start.OnWay style head node ∧ start.IsBoilerplate node := by
  rw [swept.pruned.below_iff swept.grows.forest]
  constructor
  · rintro ⟨-, free⟩ ⟨node, ⟨lower, upper⟩, boilerplate⟩
    refine free node ⟨?_, swept.grows.below_of_below upper⟩ ?_
    · exact lower.imp_right swept.grows.below_of_below
    · exact swept.mem_iff.mpr ⟨upper, boilerplate⟩
  · intro apart
    refine ⟨below, ?_⟩
    rintro node ⟨lower, upper⟩ member
    obtain ⟨inHead, boilerplate⟩ := swept.mem_iff.mp member
    refine apart ⟨node, ⟨?_, inHead⟩, boilerplate⟩
    rcases origin with inside | link
    · exact lower.imp_right (swept.grows.below_iff forest inside).mp
    · rcases (Tree.onWay_iff_of_parent? link).mp ⟨lower, upper⟩ with ⟨same, -⟩ | higher
      · exact .inl same
      · exact absurd higher swept.grows.forest.not_onWay_self

end Swept

end Rendering

open Rendering

/-- A custom stylesheet below the head that holds some rules, and that was in the input
if it is not a child of the head. -/
structure Tree.Houses (start tree : Tree) (head style : NodeId) (css : String) : Prop where
  marked : tree.isStyleMarked style customStyleMarker = true
  holds : tree.HoldsText style css
  below : tree.Below style head
  origin : style < start.size ∨ tree.parent? style = some head

theorem Tree.Forest.carries_of_marked {tree : Tree} {style : NodeId} {css : String}
    (forest : tree.Forest) (marked : tree.isStyleMarked style customStyleMarker = true)
    (holds : tree.HoldsText style css) : tree.Carries style css :=
  forest.carries
    (isSome_element?_of_isTagged (isTagged_style_of_isStyleMarked marked)) holds

section Kept

variable {state : Rendering} {html head id : NodeId} {css : String}
  (forest : state.tree.Forest) (found : state.tree.html? = some html)
  (headFound : state.tree.head? = some head) (registry : ScriptRegistry)
include forest found headFound

/-- The stylesheet at hand houses what it holds. -/
theorem prepared_houses_of_style? (missing : state.budget.style? = none) {style : NodeId}
    (known : (state.prepared registry html head).budget.style? = some style)
    (holds : (state.prepared registry html head).tree.HoldsText style css) :
    state.tree.Houses (state.prepared registry html head).tree head style css := by
  have settled : state.budget.Settled state.tree := .of_missing missing
  have site := forest.site found
  have lands := prepared_lands forest found registry settled headFound
  have grows := prepared_grows forest found registry settled headFound
  have markedHead := (site.head?_of_grows (marked_grows forest found)).trans headFound
  obtain ⟨other, otherFound, below, marked⟩ := lands.settled style known
  rw [site.head?_of_grows grows, headFound] at otherFound
  cases otherFound
  refine ⟨marked, holds, below, ?_⟩
  rcases lands.origin missing known with inside | ⟨parent, parentFound, link⟩
  · left
    rwa [Rendering.marked, Tree.setAttribute, Tree.size_modifyAttributes] at inside
  · rw [markedHead] at parentFound
    cases parentFound
    exact .inr link

theorem prepared_houses (missing : state.budget.style? = none)
    (accepted : (id, css) ∈ state.runRules html) :
    ∃ style, state.tree.Houses (state.prepared registry html head).tree head style css := by
  have settled : state.budget.Settled state.tree := .of_missing missing
  have lands := prepared_lands forest found registry settled headFound
  obtain ⟨style, known, holds⟩ := lands.holds ⟨id, accepted⟩
  exact ⟨style, prepared_houses_of_style? forest found headFound registry missing known holds⟩

/-- The second mark changes nothing about the stylesheet. -/
theorem unswept_houses {style : NodeId} (settled : state.budget.Settled state.tree)
    (houses : state.tree.Houses (state.prepared registry html head).tree head style css) :
    state.tree.Houses (unswept registry state html head) head style css := by
  have grows := prepared_grows forest found registry settled headFound
  have site := (forest.site found).grown grows
  have marking : (state.prepared registry html head).tree.Grows (state.tree.runScope html)
      Element.NoBoilerplate (unswept registry state html head) :=
    (Tree.Grows.refl site.forest).setAttribute noBoilerplateMarker ""
      (site.writtenInside html (.inl rfl)) (.inl rfl)
  have inside := Tree.lt_size_of_isTagged (Tree.isTagged_style_of_isStyleMarked houses.marked)
  refine ⟨?_, houses.holds.grows marking, marking.below_of_below houses.below, ?_⟩
  · rw [site.isStyleMarked_of_grows marking inside]
    exact houses.marked
  · rw [marking.parent? inside]
    exact houses.origin

end Kept

/-- The rules that are accepted while a document is rendered ahead, with their elements.
There are none if it has been rendered before. -/
def movedRules (limit : Nat) (report : Report) (tree : Tree) (html : NodeId) :
    List (NodeId × String) :=
  if tree.hasAttribute html layoutMarker then [] else (start limit report tree).runRules html

theorem mem_movedRules_iff {limit : Nat} {report : Report} {tree : Tree} {html : NodeId}
    {rules : NodeId × String} : rules ∈ movedRules limit report tree html ↔
      tree.hasAttribute html layoutMarker = false ∧
        rules ∈ (start limit report tree).runRules html := by
  unfold movedRules
  split
  next marked => simp [marked]
  next unmarked => simp [unmarked]

/-- **Accepted rules leave the head only with the boilerplate.** The rules that the
budget accepts for an element are part of the text of a custom stylesheet when
rendering is over. That stylesheet is still below the head, unless the boilerplate was
swept and in the input the stylesheet, or an element of the head around it, belongs to
the boilerplate. -/
theorem accepted_rules_kept {tree : Tree} {html head : NodeId} (registry : ScriptRegistry)
    (limit : Nat) (report : Report) (reachable : Tree.Reachable tree)
    (found : tree.html? = some html) (headFound : tree.head? = some head)
    {id : NodeId} {css : String} (moved : (id, css) ∈ movedRules limit report tree html) :
    ∃ style, let final := (renderAhead registry { limit } report tree).tree
      final.isStyleMarked style customStyleMarker = true ∧ final.Carries style css ∧
        final.head? = some head ∧
        (final.Below style head ↔
          ¬ (((start limit report tree).prepared registry html head).needsBoilerplate = false ∧
            ∃ node, tree.OnWay style head node ∧ tree.IsBoilerplate node)) := by
  obtain ⟨unmarked, accepted⟩ := mem_movedRules_iff.mp moved
  have forest : (start limit report tree).tree.Forest := reachable.forest
  have site := forest.site found
  have settled := start_settled limit report tree
  have grows := prepared_grows forest found registry settled headFound
  have preparedSite := site.grown grows
  obtain ⟨style, houses⟩ := prepared_houses forest found headFound registry rfl accepted
  rw [(renderAhead_eq registry limit report found unmarked).1]
  refine ⟨style, ?_⟩
  cases needs : ((start limit report tree).prepared registry html head).needsBoilerplate with
  | true =>
      rw [run_of_needed forest found headFound settled registry needs]
      refine ⟨houses.marked, preparedSite.forest.carries_of_marked houses.marked houses.holds,
        (site.head?_of_grows grows).trans headFound, ?_⟩
      exact ⟨fun _ => by simp, fun _ => houses.below⟩
  | false =>
      obtain ⟨ids, swept⟩ := run_swept forest found headFound settled registry needs
      have housed := unswept_houses forest found headFound registry settled houses
      have marked : (run registry (start limit report tree) html).tree.isStyleMarked style
          customStyleMarker = true := by
        rw [Tree.isStyleMarked_eq, Tree.element?_congr (swept.pruned.kind? style),
          ← Tree.isStyleMarked_eq]
        exact housed.marked
      refine ⟨marked, swept.pruned.forest.carries_of_marked marked (swept.holdsText housed.holds),
        (run_stays forest found headFound settled registry).2.2, ?_⟩
      · rw [swept.below_iff forest housed.below housed.origin]
        exact not_congr ⟨fun found => ⟨rfl, found⟩, fun found => found.2⟩

namespace Tree

/-- A document with an image that is shown in print only, and with further elements. -/
def printedTree (further : List Call) : Tree :=
  built ([.createElement "html" [], .append root 1, .createElement "head" [], .append 1 2,
    .createElement "body" [], .append 1 3,
    .createElement "amp-img" [("id", "a"), ("media", "print")], .append 3 4] ++ further)

/-- The document with its custom stylesheet in a noscript element of the head. -/
def shelteredTree : Tree :=
  printedTree [.createElement "noscript" [], .append 2 5,
    .createElement "style" [("amp-custom", "")], .append 5 6]

end Tree

/-- The rule for the image. -/
def printRule : String := "@media not print\x7b#a\x7bdisplay:none;\x7d\x7d"

theorem accepted_rules_kept_printedTree :
    (4, printRule) ∈ movedRules 75000 ∅ (Tree.printedTree []) 1 ∧
    ∃ style,
      let final := (renderAhead .published { limit := 75000 } ∅ (Tree.printedTree [])).tree
      final.IsCustomStyle style ∧ final.Carries style printRule := by
  have reachable : Tree.Reachable (Tree.printedTree []) :=
    Tree.reachable_built (by decide +kernel)
  have found : (Tree.printedTree []).html? = some 1 := by decide +kernel
  have headFound : (Tree.printedTree []).head? = some 2 := by decide +kernel
  have moved : (4, printRule) ∈ movedRules 75000 ∅ (Tree.printedTree []) 1 := by
    decide +kernel
  obtain ⟨style, marked, carries, headStays, below⟩ :=
    accepted_rules_kept .published 75000 ∅ reachable found headFound moved
  refine ⟨moved, style, ⟨2, headStays, below.mpr ?_, marked⟩, carries⟩
  rintro ⟨-, node, -, boilerplate⟩
  have clean : ∀ id < (Tree.printedTree []).size, ¬ (Tree.printedTree []).IsBoilerplate id := by
    decide +kernel
  exact clean node boilerplate.lt_size boilerplate

/-- A custom stylesheet in a noscript element takes accepted rules out of the head. -/
theorem accepted_rules_lost : ¬ ∀ (registry : ScriptRegistry) (limit : Nat) (report : Report)
    (tree : Tree) (html head id : NodeId) (css : String), tree.Reachable →
    tree.html? = some html → tree.head? = some head →
    (id, css) ∈ movedRules limit report tree html →
    ∃ style, let final := (renderAhead registry { limit } report tree).tree
      final.IsCustomStyle style ∧ final.Carries style css := by
  intro claim
  have reachable : Tree.shelteredTree.Reachable := by
    unfold Tree.shelteredTree Tree.printedTree
    exact Tree.reachable_built (by decide +kernel)
  have found : Tree.shelteredTree.html? = some 1 := by decide +kernel
  have headFound : Tree.shelteredTree.head? = some 2 := by decide +kernel
  obtain ⟨style, ⟨head, stays, below, marked⟩, -⟩ :=
    claim .published 75000 ∅ Tree.shelteredTree 1 2 4 printRule reachable found headFound
      (by decide +kernel)
  have final : (renderAhead .published { limit := 75000 } ∅ Tree.shelteredTree).tree.Forest := by
    have forest : (start 75000 ∅ Tree.shelteredTree).tree.Forest := reachable.forest
    rw [(renderAhead_eq .published 75000 ∅ found (by decide +kernel)).1]
    exact (run_stays forest found headFound (start_settled 75000 ∅ _) .published).1
  -- Only the style of the runtime is left below the head.
  have left : (renderAhead .published { limit := 75000 } ∅ Tree.shelteredTree).tree.head? =
      some 2 ∧ ∀ id ∈ (renderAhead .published { limit := 75000 } ∅
        Tree.shelteredTree).tree.descendants 2,
        (renderAhead .published { limit := 75000 } ∅ Tree.shelteredTree).tree.isStyleMarked id
          customStyleMarker = false := by
    decide +kernel
  rw [left.1] at stays
  cases stays
  rw [left.2 style (final.mem_descendants_iff.mpr below)] at marked
  exact absurd marked (by simp)

end FirstPaint
