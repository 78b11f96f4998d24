import FirstPaint.Proofs.Document.FreshNames
import FirstPaint.Proofs.Pass.Ledger
import FirstPaint.Proofs.Responsive.EndTags

/-!
# End tags in the styles of a rendered document

Text directly inside a style is written as it is, so a style whose text has an end tag in it
ends earlier than its element (`Tree.HoldsEndTag`). Rendering adds text to one style, and
what it adds are the rules that are accepted. If no style has an end tag in its text before,
then afterwards the stylesheet at hand has one exactly if accepted rules have one, and no
other style does (`Rendering.StyleEndTags`).

Rules take over the id of their element and fragments of its blocking attributes as they
are. So all styles stay free of end tags if these attributes of the elements that are treated
are (`Rendering.StyleEndTags.stylesFree`), and a single attribute can be enough to bring one
in (`style_endTag_moved`).
-/

set_option autoImplicit false

namespace FirstPaint

namespace Tree

/-- A text directly inside the node has an end tag in it. -/
def HoldsEndTag (tree : Tree) (id : NodeId) : Prop :=
  ∃ child ∈ tree.children id, ∃ data ∈ tree.text? child, OpensEndTag data.toList

/-- No text directly inside a style has an end tag in it. -/
def StylesFree (tree : Tree) : Prop :=
  ∀ style, tree.tag? style = some "style" → ¬ tree.HoldsEndTag style

instance (tree : Tree) (id : NodeId) : Decidable (tree.HoldsEndTag id) :=
  inferInstanceAs (Decidable
    (∃ child ∈ tree.children id, ∃ data ∈ tree.text? child, OpensEndTag data.toList))

/-- Styles are in the store, so they can be looked through. -/
theorem stylesFree_iff {tree : Tree} : (∀ style < tree.size, tree.tag? style = some "style" →
    ¬ tree.HoldsEndTag style) ↔ tree.StylesFree := by
  refine ⟨fun inside style isStyle => inside style ?_ isStyle, fun free style _ => free style⟩
  obtain ⟨element, isElement, -⟩ := Option.map_eq_some_iff.mp isStyle
  exact lt_size_of_element? isElement

instance (tree : Tree) : Decidable tree.StylesFree := decidable_of_iff _ stylesFree_iff

section Endings

variable {first tree : Tree} {id : NodeId} {left : List NodeId} {css : String}

/-- **What has come to the end of a node brings the only end tags**, if nothing else of it has
changed. -/
theorem Ending.holdsEndTag_iff (ending : Ending first tree id left css)
    (part : left ⊆ first.children id)
    (stays : ∀ {last}, first.lastChild? id = some last → (first.text? last).isSome = true →
      last ∈ left)
    (others : ∀ {child}, child ∈ first.children id →
      (first.lastChild? id = some child → first.text? child = none) →
        tree.text? child = first.text? child)
    (free : ¬ first.HoldsEndTag id) (apart : css.toList.head? ≠ some '/') :
    tree.HoldsEndTag id ↔ OpensEndTag css.toList := by
  -- What is left of the children has no end tag, apart from the last text.
  have clean : ∀ {child data}, child ∈ left → tree.text? child = first.text? child →
      tree.text? child = some data → ¬ OpensEndTag data.toList :=
    fun member same found opens => free ⟨_, part member, _, same.symm.trans found, opens⟩
  cases ending with
  | kept listed same =>
      refine iff_of_false ?_ (by decide)
      rintro ⟨child, member, data, found, opens⟩
      rw [listed] at member
      refine clean member ?_ found opens
      by_cases isLast : first.lastChild? id = some child
      · exact same child isLast
      · exact others (part member) fun last => absurd last isLast
  | @grown last data _ isLast before after listed =>
      have noTag : ¬ OpensEndTag data.toList :=
        fun opens => free ⟨last, List.mem_of_getLast? isLast, data, before, opens⟩
      have grown : OpensEndTag (data ++ css).toList ↔ OpensEndTag css.toList := by
        rw [String.toList_append, opensEndTag_append_of_head? apart, or_iff_right noTag]
      constructor
      · rintro ⟨child, member, data, found, opens⟩
        rw [listed] at member
        by_cases same : child = last
        · rw [same, after] at found
          cases found
          exact grown.mp opens
        · refine absurd opens (clean member (others (part member) fun isChild => ?_) found)
          exact absurd (Option.some.inj (isChild.symm.trans isLast)) same
      · intro opens
        refine ⟨last, ?_, _, after, grown.mpr opens⟩
        rw [listed]
        exact stays isLast (by rw [before]; rfl)
  | @added text _ noText isNew listed isText =>
      rw [HoldsEndTag, listed]
      constructor
      · rintro ⟨child, member, data, found, opens⟩
        rcases List.mem_append.mp member with old | new
        · exact absurd opens (clean old (others (part old) (noText child)) found)
        · rw [List.mem_singleton.mp new, isText] at found
          cases found
          exact opens
      · exact fun opens => ⟨text, by simp, css, isText, opens⟩

end Endings

end Tree

/-- A made-up id opens no end tag. -/
theorem not_opensEndTag_generated (number : Nat) :
    ¬ OpensEndTag (Tree.generatedIdStart ++ toString number).toList := by
  have start : ¬ OpensEndTag Tree.generatedIdStart.toList := by decide
  have apart : Tree.generatedIdStart.toList.getLast? ≠ some '<' := by decide
  rw [String.toList_append, opensEndTag_append_of_getLast? apart, or_iff_right start]
  intro opens
  have less : '<' ∈ Nat.toDigits 10 number := by
    have member : '<' ∈ (toString number).toList := opens.subset (by simp)
    simpa only [Nat.toString_eq_repr, Nat.toList_repr] using member
  exact absurd (Nat.isDigit_of_mem_toDigits (by decide) (by decide) less) (by decide)

namespace Rendering

/-- What a run does about end tags in styles, given the stylesheet at hand and the rules that
are accepted. -/
structure StyleEndTags (before after : Tree) (sheet? : Option NodeId)
    (rules : List (NodeId × String)) : Prop where
  /-- End tags come with rules, to the stylesheet at hand. -/
  holds_iff : ∀ {style}, after.tag? style = some "style" → (after.HoldsEndTag style ↔
    sheet? = some style ∧ ∃ id css, (id, css) ∈ rules ∧ OpensEndTag css.toList)
  /-- Rules bring in what the id or a fragment brings in. -/
  rule : ∀ {id css}, (id, css) ∈ rules → before.IsTreated id ∧ ∃ element found name,
    before.element? id = some element ∧ element.blockingStyles = .ok found ∧
      css = rulesFor found name ∧
      (before.attribute? id "id" = some name ∨ before.attribute? id "id" = none ∧
        ∃ number : Nat, name = Tree.generatedIdStart ++ toString number) ∧
      (OpensEndTag css.toList ↔ OpensEndTag name.toList ∨
        ∃ entry ∈ found, ∃ fragment ∈ entry.style.fragments, OpensEndTag fragment)

namespace StyleEndTags

variable {before after : Tree} {sheet? : Option NodeId} {rules : List (NodeId × String)}

/-- Without rules nothing is brought in. -/
theorem unchanged {tree : Tree} (free : tree.StylesFree) : StyleEndTags tree tree none [] where
  holds_iff isStyle := iff_of_false (free _ isStyle) (by simp)
  rule member := absurd member List.not_mem_nil

/-- An end tag in rules comes from the id or from a blocking attribute of their element. -/
theorem exists_attribute (endTags : StyleEndTags before after sheet? rules) {id : NodeId}
    {css : String} (member : (id, css) ∈ rules) (opens : OpensEndTag css.toList) :
    before.IsTreated id ∧ ∃ element, before.element? id = some element ∧
      ∃ entry ∈ element.attributes.toList, Ascii.lower entry.name ∈ "id" :: blockingNames ∧
        OpensEndTag entry.value.toList := by
  obtain ⟨treated, element, found, name, isElement, read, -, origin, opensIff⟩ :=
    endTags.rule member
  refine ⟨treated, element, isElement, ?_⟩
  rcases opensIff.mp opens with named | ⟨style, listed, fragment, part, opensPart⟩
  · rcases origin with had | ⟨-, number, rfl⟩
    · rw [Tree.attribute?_of_element? isElement, Attributes.get?] at had
      obtain ⟨entry, isEntry, rfl⟩ := Option.map_eq_some_iff.mp had
      have isId : entry.name = Ascii.lower "id" := by simpa using List.find?_some isEntry
      refine ⟨entry, List.mem_of_find?_eq_some isEntry, ?_, named⟩
      rw [isId]
      with_unfolding_all decide
    · exact absurd named (not_opensEndTag_generated number)
  · obtain ⟨entry, isEntry, blocking, kind, isRead⟩ := exists_of_mem_readBlocking read style listed
    refine ⟨entry, isEntry, List.mem_cons_of_mem _ ?_, ?_⟩
    · rw [← ResponsiveAttribute.isSome_ofName?, kind]
      rfl
    · exact ResponsiveStyle.opensEndTag_of_fragment isRead fragment part opensPart

/-- **Styles stay free of end tags** if the ids and the blocking attributes of the elements that
are treated are free of them. -/
theorem stylesFree (endTags : StyleEndTags before after sheet? rules)
    (plain : ∀ id element, before.IsTreated id → before.element? id = some element →
      ∀ entry ∈ element.attributes.toList, Ascii.lower entry.name ∈ "id" :: blockingNames →
        ¬ OpensEndTag entry.value.toList) : after.StylesFree := by
  intro style isStyle holds
  obtain ⟨-, id, css, member, opens⟩ := (endTags.holds_iff isStyle).mp holds
  obtain ⟨treated, element, isElement, entry, isEntry, moves, opensValue⟩ :=
    endTags.exists_attribute member opens
  exact plain id element treated isElement entry isEntry moves opensValue

end StyleEndTags

namespace Framed

variable {edits : Edits} {before after : Tree} {html style : NodeId}
  (framed : Framed edits before after html)
include framed

/-- A style that was there gets an end tag only as the stylesheet at hand. -/
theorem holdsEndTag_iff_of_old (forest : before.Forest)
    (isHtml : before.isTagged html "html" = true)
    (elements : ∀ id ∈ edits.dropped, before.text? id = none)
    (apart : edits.css.toList.head? ≠ some '/') (inside : style < before.size)
    (isStyle : before.isTagged style "style" = true) (free : ¬ before.HoldsEndTag style) :
    after.HoldsEndTag style ↔ edits.sheet? = some style ∧ OpensEndTag edits.css.toList := by
  have left : edits.left before style ⊆ before.children style :=
    fun _ member => (List.mem_filter.mp member).1
  -- A text of the style is what it was, unless it is the last one of the stylesheet.
  have texts : ∀ {child}, child ∈ before.children style →
      (before.customStyle? = some style → before.lastChild? style = some child →
        before.text? child = none) → after.text? child = before.text? child := by
    intro child member notLast
    refine framed.text? isHtml (forest.child_lt member) ?_
    rintro ⟨other, present, isLast, isText⟩
    have link := forest.mem_children_iff.mp (List.mem_of_getLast? isLast)
    cases (forest.mem_children_iff.mp member).symm.trans link
    rw [notLast present isLast] at isText
    exact absurd isText (by simp)
  by_cases present : before.customStyle? = some style
  · obtain ⟨ending, known⟩ := framed.sheet present
    rw [ending.holdsEndTag_iff left ?_ (fun member notLast => texts member fun _ => notLast)
      free apart]
    · rcases known with none | same
      · rw [none, framed.unused none]
        exact iff_of_false (by decide) (by simp)
      · rw [same, and_iff_right rfl]
    · intro last isLast isText
      refine List.mem_filter.mpr ⟨List.mem_of_getLast? isLast, decide_eq_true fun dropped => ?_⟩
      rw [elements last dropped] at isText
      exact absurd isText (by simp)
  · have notTreated : ¬ before.IsTreated style :=
      fun treated => absurd (treated.1.not_parts.1.symm.trans isStyle) (by simp)
    have noHead : before.head? ≠ some style := fun isHead =>
      Tree.ne_of_head? isHead
        (Tree.isTagged_eq_false_of_isTagged isStyle (by with_unfolding_all decide)) rfl
    have listed := framed.children inside notTreated noHead present
    refine iff_of_false ?_ ?_
    · rintro ⟨child, member, data, found, opens⟩
      rw [listed] at member
      refine free ⟨child, left member, data, ?_, opens⟩
      exact (texts (left member) fun isSheet => absurd isSheet present).symm.trans found
    · rintro ⟨atHand, -⟩
      rcases framed.sheet_origin atHand with isSheet | ⟨-, isNew⟩
      · exact present isSheet
      · exact Nat.not_lt_of_le isNew inside

/-- The style of the runtime stays empty, and a new stylesheet has what has come to it. -/
theorem holdsEndTag_iff_of_new (forest : before.Forest) (apart : edits.css.toList.head? ≠ some '/')
    (isNew : before.size ≤ style) (isStyle : after.tag? style = some "style") :
    after.HoldsEndTag style ↔ edits.sheet? = some style ∧ OpensEndTag edits.css.toList := by
  obtain ⟨element, isElement, isTag⟩ := Option.map_eq_some_iff.mp isStyle
  have created : edits.sheet? = some style → after.kind? style = some Budget.styleKind ∧
      before.Ending after style [] edits.css := by
    intro atHand
    rcases framed.sheet_origin atHand with present | ⟨absent, -⟩
    · have inside := (forest.isCustomStyle_of_customStyle? present).lt_size
      exact absurd isNew (Nat.not_le_of_lt inside)
    · exact (framed.created absent atHand).2
  rcases (framed.fresh isNew isElement).2 (by rw [isTag]; with_unfolding_all decide)
    with runtime | atHand
  · obtain ⟨-, isRuntime, empty⟩ := framed.runtime runtime
    refine iff_of_false ?_ ?_
    · rintro ⟨child, member, -⟩
      rw [empty] at member
      exact List.not_mem_nil member
    · rintro ⟨atHand, -⟩
      have kinds := (created atHand).1.symm.trans (Tree.element?_eq_some_iff.mp isRuntime)
      exact absurd kinds (by with_unfolding_all decide)
  · have empty := Tree.children_of_size_le isNew
    have free : ¬ before.HoldsEndTag style := by
      rintro ⟨child, member, -⟩
      rw [empty] at member
      exact List.not_mem_nil member
    rw [(created atHand).2.holdsEndTag_iff (List.nil_subset _) ?_ ?_ free apart,
      and_iff_right atHand]
    · intro last isLast
      rw [Tree.lastChild?, empty] at isLast
      exact absurd isLast (by simp)
    · intro child member
      rw [empty] at member
      exact absurd member List.not_mem_nil

end Framed

section Run

variable {state : Rendering} {html : NodeId} (registry : ScriptRegistry)
  (forest : state.tree.Forest) (found : state.tree.html? = some html)
  (settled : state.budget.Settled state.tree)
include forest found settled

/-- What accepted rules are made of. -/
theorem exists_of_mem_runRules {id : NodeId} {css : String}
    (member : (id, css) ∈ state.runRules html) : state.tree.IsTreated id ∧
      ∃ element styles name, state.tree.element? id = some element ∧
      element.blockingStyles = .ok styles ∧ styles.all (·.style.isNothing) = false ∧
      css = rulesFor styles name ∧ (state.tree.attribute? id "id" = some name ∨
        state.tree.attribute? id "id" = none ∧
          ∃ number : Nat, name = Tree.generatedIdStart ++ toString number) := by
  obtain ⟨treated, accepted⟩ := (mem_runRules_iff forest found settled).mp member
  obtain ⟨⟨element, styles, isElement, read, something, same⟩, -⟩ :=
    acceptedRules?_eq_some_iff.mp accepted
  have before := (atTurn forest found treated.1 settled).same.element?
  have sameId : (state.turn html id).tree.attribute? id "id" =
      state.tree.attribute? id "id" := by
    rw [Tree.attribute?, Tree.attribute?, before]
  have origin := Tree.ensureId_eq (state.turn html id).tree id
  rw [sameId] at origin
  exact ⟨treated, element, styles, _, before.symm.trans isElement, read, something, same, origin⟩

theorem head?_runRules {id : NodeId} {css : String} (member : (id, css) ∈ state.runRules html) :
    css.toList.head? ≠ some '/' := by
  obtain ⟨-, _, styles, name, -, -, -, rfl, -⟩ :=
    exists_of_mem_runRules forest found settled member
  rw [rulesFor, String.toList_ofList]
  exact head?_flatMap_ne fun entry _ => entry.style.head?_rules name

theorem rulesText_runRules : (rulesText (state.runRules html)).toList.head? ≠ some '/' ∧
    (OpensEndTag (rulesText (state.runRules html)).toList ↔
      ∃ id css, (id, css) ∈ state.runRules html ∧ OpensEndTag css.toList) := by
  have apart : ∀ css ∈ (state.runRules html).map (·.2), css.toList.head? ≠ some '/' := by
    intro css member
    obtain ⟨⟨id, css⟩, listed, rfl⟩ := List.mem_map.mp member
    exact head?_runRules forest found settled listed
  rw [rulesText, String.toList_join, opensEndTag_flatMap apart]
  refine ⟨head?_flatMap_ne apart, ?_, ?_⟩
  · rintro ⟨css, member, opens⟩
    obtain ⟨⟨id, css⟩, listed, rfl⟩ := List.mem_map.mp member
    exact ⟨id, css, listed, opens⟩
  · rintro ⟨id, css, listed, opens⟩
    exact ⟨css, List.mem_map.mpr ⟨(id, css), listed, rfl⟩, opens⟩

/-- **End tags in styles after a run.** -/
theorem run_styleEndTags (missing : state.budget.style? = none) (free : state.tree.StylesFree) :
    StyleEndTags state.tree (run registry state html).tree (run registry state html).budget.style?
      (state.runRules html) := by
  obtain ⟨edits, ofRun, framed⟩ := run_framed registry forest found settled missing
  obtain ⟨apart, opensIff⟩ := rulesText_runRules forest found settled
  rw [← ofRun.css] at apart opensIff
  have isHtml := (Tree.html?_eq_some_iff.mp found).2
  refine ⟨fun {style} isStyle => ?_, fun {id css} member => ?_⟩
  · rw [← opensIff, ← ofRun.sheet?]
    by_cases inside : style < state.tree.size
    · have wasStyle := (framed.tag? inside).symm.trans isStyle
      have tagged : state.tree.isTagged style "style" = true := by
        rw [Tree.isTagged, wasStyle]
        with_unfolding_all decide
      refine framed.holdsEndTag_iff_of_old forest isHtml (fun id dropped => ?_) apart inside tagged
        (free style wasStyle)
      obtain ⟨_, -, -, boilerplate⟩ := ofRun.dropped_below dropped
      exact Tree.text?_of_tag? boilerplate.isSome_tag?
    · exact framed.holdsEndTag_iff_of_new forest apart (Nat.le_of_not_lt inside) isStyle
  · obtain ⟨treated, element, styles, name, isElement, read, something, rfl, origin⟩ :=
      exists_of_mem_runRules forest found settled member
    exact ⟨treated, element, styles, name, isElement, read, rfl, origin,
      opensEndTag_rulesFor something name⟩

end Run

end Rendering

open Rendering

/-- **End tags in the styles of a rendered document.** If no style has an end tag in its text,
then rendering brings end tags into the stylesheet at hand only, exactly if accepted rules
have them, and rules have them exactly if the id or a fragment taken over has. If the ids
and the blocking attributes of the elements that are treated have none, no style has one. -/
theorem renderAhead_styleEndTags {tree : Tree} (registry : ScriptRegistry) (limit : Nat)
    (report : Report) (reachable : tree.Reachable) (free : tree.StylesFree) :
    let rendered := renderAhead registry { limit } report tree
    (tree.Marked → rendered.tree = tree) ∧
    (∀ html, tree.html? = some html → StyleEndTags tree rendered.tree rendered.budget.style?
      (movedRules limit report tree html)) ∧
    ((∀ id element, tree.IsTreated id → tree.element? id = some element →
      ∀ entry ∈ element.attributes.toList, Ascii.lower entry.name ∈ "id" :: blockingNames →
        ¬ OpensEndTag entry.value.toList) → rendered.tree.StylesFree) := by
  intro rendered
  have same : tree.Marked → rendered = { tree, budget := { limit }, report } :=
    fun marked => renderAhead_of_marked marked registry { limit } report
  have endTags : ∀ html, tree.html? = some html → StyleEndTags tree rendered.tree
      rendered.budget.style? (movedRules limit report tree html) := by
    intro html found
    rw [movedRules]
    split
    next marked =>
      have isMarked : tree.Marked := by
        intro other otherFound
        rw [found] at otherFound
        cases otherFound
        exact marked
      rw [same isMarked]
      exact .unchanged free
    next unmarked =>
      have before : (start limit report tree).tree.Forest := reachable.forest
      have run := run_styleEndTags registry before found (start_settled limit report tree) rfl free
      rw [← renderAhead_budget registry limit report found (by simpa using unmarked)] at run
      rwa [← (renderAhead_eq registry limit report found (by simpa using unmarked)).1] at run
  refine ⟨fun marked => by rw [same marked], endTags, fun plain => ?_⟩
  cases found : tree.html? with
  | some html => exact (endTags html found).stylesFree plain
  | none =>
      rw [same fun html other => absurd (found.symm.trans other) (by simp)]
      exact free

/-- A document with an image whose media query is an end tag. -/
def Tree.closingTree : Tree :=
  built [.createElement "html" [], .append root 1, .createElement "head" [], .append 1 2,
    .createElement "body" [], .append 1 3,
    .createElement "amp-img" [("id", "a"), ("media", "</style>")], .append 3 4]

/-- The stylesheet takes the end tag over, and the style of the runtime has none. Where the
attributes are harmless, no style gets one. -/
theorem renderAhead_styleEndTags_closingTree :
    let final := (renderAhead .published { limit := 75000 } ∅ Tree.closingTree).tree
    Tree.closingTree.StylesFree ∧ final.HoldsEndTag 5 ∧ ¬ final.HoldsEndTag 7 ∧
      (renderAhead .published { limit := 75000 } ∅ Tree.commentedTree).tree.StylesFree := by
  intro final
  have reachable : Tree.closingTree.Reachable := by
    unfold Tree.closingTree
    exact Tree.reachable_built (by decide +kernel)
  have harmless : Tree.commentedTree.Reachable := by
    unfold Tree.commentedTree Tree.printedTree
    exact Tree.reachable_built (by decide +kernel)
  have free : Tree.closingTree.StylesFree := by decide +kernel
  obtain ⟨-, endTags, -⟩ := renderAhead_styleEndTags .published 75000 ∅ reachable free
  obtain ⟨-, -, stays⟩ := renderAhead_styleEndTags .published 75000 ∅ harmless (by decide +kernel)
  have tags := endTags 1 (by decide +kernel)
  have sheet : final.HoldsEndTag 5 ↔ _ := tags.holds_iff (by decide +kernel)
  have runtime : final.HoldsEndTag 7 ↔ _ := tags.holds_iff (by decide +kernel)
  have plain : ∀ id < Tree.commentedTree.size,
      ∀ element ∈ Tree.commentedTree.element? id, ∀ entry ∈ element.attributes.toList,
        Ascii.lower entry.name ∈ "id" :: blockingNames → ¬ OpensEndTag entry.value.toList := by
    decide +kernel
  refine ⟨free, sheet.mpr ⟨by decide +kernel, 4,
    "@media not </style>\x7b#a\x7bdisplay:none;\x7d\x7d", by decide +kernel, by decide +kernel⟩,
    fun holds => ?_, stays fun id element treated isElement => ?_⟩
  · exact absurd (runtime.mp holds).1 (by decide +kernel)
  · exact plain id (Tree.lt_size_of_element? isElement) element isElement

/-- A blocking attribute can bring an end tag into a style. -/
theorem style_endTag_moved : ¬ ∀ (registry : ScriptRegistry) (limit : Nat) (report : Report)
    (tree : Tree), tree.Reachable →
    (∀ holder, tree.holdsRawText holder = true → ¬ tree.HoldsEndTag holder) →
    (renderAhead registry { limit } report tree).tree.StylesFree := by
  intro claim
  have reachable : Tree.closingTree.Reachable := by
    unfold Tree.closingTree
    exact Tree.reachable_built (by decide +kernel)
  have holders : ∀ holder < Tree.closingTree.size,
      Tree.closingTree.holdsRawText holder = true → ¬ Tree.closingTree.HoldsEndTag holder := by
    decide +kernel
  refine absurd (claim .published 75000 ∅ Tree.closingTree reachable fun holder isRaw => ?_)
    (by decide +kernel)
  obtain ⟨element, isElement, -⟩ := (Option.any_eq_true _ _).mp isRaw
  exact holders holder (Tree.lt_size_of_element? isElement) isRaw

example : (renderAhead .published { limit := 75000 } ∅ Tree.closingTree).tree.outerMarkup 5 =
    "<style amp-custom>@media not </style>\x7b#a\x7bdisplay:none;\x7d\x7d</style>" := by
  with_unfolding_all decide

end FirstPaint
