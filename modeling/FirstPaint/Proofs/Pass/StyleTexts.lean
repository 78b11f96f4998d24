import FirstPaint.Proofs.Pass.Frame

/-!
# Styles hold text while a document is rendered

If styles hold nothing but text before a run, they do so afterwards: rules come as text, the
style of the runtime is empty, sizers are no styles, and nothing comes into a text
(`Rendering.run_stylesHoldText`). The content of a style is then the text of its children,
one after another, so it grows by what has come to its end (`Tree.Ending.textContent`).
-/

set_option autoImplicit false

namespace FirstPaint

namespace Tree

section Keeping

variable {before after : Tree} {id front : NodeId}

/-- Edits that bring nothing into styles and leave texts what they are. -/
theorem StylesHoldText.of_edits (texts : before.StylesHoldText)
    (styles : ∀ {style}, after.isTagged style "style" = true → after.children style = [] ∨
      before.isTagged style "style" = true ∧
        ∀ child ∈ after.children style, child ∈ before.children style)
    (leaves : ∀ {leaf}, (before.text? leaf).isSome = true → before.children leaf = [] →
      (after.text? leaf).isSome = true ∧ after.children leaf = []) : after.StylesHoldText := by
  intro style tagged child member
  rcases styles tagged with none | ⟨taggedBefore, listed⟩
  · rw [none] at member
    exact absurd member List.not_mem_nil
  · obtain ⟨isText, childless⟩ := texts style taggedBefore child (listed child member)
    exact leaves isText childless

theorem Rewritten.stylesHoldText (rewritten : Rewritten before after id)
    (isElement : (before.tag? id).isSome = true) (texts : before.StylesHoldText) :
    after.StylesHoldText := by
  refine texts.of_edits (fun {style} tagged => .inr ⟨?_, ?_⟩) fun {leaf} isText childless => ?_
  · rwa [isTagged_congr (rewritten.tag?_eq style)] at tagged
  · intro child member
    rwa [rewritten.children] at member
  · rw [rewritten.text? isElement, rewritten.children]
    exact ⟨isText, childless⟩

/-- A new node comes in front of the children of an element that is no style. -/
theorem Fronts.stylesHoldText (fronts : Fronts before after id front)
    (isElement : (before.element? id).isSome = true) (noStyle : before.isTagged id "style" = false)
    (fresh : ∀ {other}, before.size ≤ other → after.isTagged other "style" = true →
      after.children other = []) (texts : before.StylesHoldText) : after.StylesHoldText := by
  have extended := fronts.extended
  refine texts.of_edits (fun {style} tagged => ?_) fun {leaf} isText childless => ?_
  · by_cases inside : style < before.size
    · rw [isTagged_congr (tag?_congr (extended.kind? inside))] at tagged
      refine .inr ⟨tagged, fun child member => ?_⟩
      rwa [fronts.children inside] at member
      rintro rfl
      exact absurd (noStyle.symm.trans tagged) (by simp)
    · exact .inl (fresh (Nat.le_of_not_lt inside) tagged)
  · obtain ⟨data, found⟩ := Option.isSome_iff_exists.mp isText
    have inside := lt_size_of_kind? (text?_eq_some_iff.mp found)
    rw [Tree.text?, extended.kind? inside, fronts.children inside (ne_of_text? isElement isText)]
    exact ⟨isText, childless⟩

theorem Pruned.stylesHoldText {ids : List NodeId} (pruned : before.Pruned after ids)
    (texts : before.StylesHoldText) : after.StylesHoldText := by
  refine texts.of_edits (fun {style} tagged => .inr ⟨?_, ?_⟩) fun {leaf} isText childless => ?_
  · rwa [isTagged_congr (tag?_congr (pruned.kind? style))] at tagged
  · intro child member
    rw [pruned.children] at member
    exact (List.mem_filter.mp member).1
  · rw [Tree.text?, pruned.kind?, pruned.children, childless]
    exact ⟨isText, rfl⟩

end Keeping

/-! ## The content of a style -/

section Content

variable {first tree : Tree} {id : NodeId} {css : String}

/-- The content of a node that holds texts is what they say, one after another. -/
theorem HoldsOnlyText.textContent (holds : tree.HoldsOnlyText id) (forest : tree.Forest)
    (noData : tree.characterData? id = none) :
    tree.textContent id = String.join ((tree.children id).filterMap tree.text?) := by
  have listed : tree.descendants id = tree.children id := by
    rw [forest.descendants_eq]
    have alone : ∀ child ∈ tree.children id, child :: tree.descendants child = [child] := by
      intro child member
      rw [forest.descendants_eq, (holds child member).2, List.flatMap_nil]
    rw [List.flatMap_congr alone, List.flatMap_singleton']
  have data : (tree.children id).filterMap tree.characterData? =
      (tree.children id).filterMap tree.text? := by
    refine List.filterMap_congr fun child member => ?_
    obtain ⟨data, found⟩ := Option.isSome_iff_exists.mp (holds child member).1
    rw [found, characterData?_of_text? found]
  rw [Tree.textContent, noData, listed, data]

/-- **What has come to the end of a style comes to the end of its content.** -/
theorem Ending.textContent (ending : Ending first tree id (first.children id) css)
    (start : first.Forest) (forest : tree.Forest) (before : first.HoldsOnlyText id)
    (after : tree.HoldsOnlyText id) (noDataBefore : first.characterData? id = none)
    (noDataAfter : tree.characterData? id = none)
    (others : ∀ child ∈ first.children id, first.lastChild? id ≠ some child →
      tree.text? child = first.text? child) :
    tree.textContent id = first.textContent id ++ css := by
  rw [before.textContent start noDataBefore, after.textContent forest noDataAfter]
  cases ending with
  | kept listed same =>
      rw [listed, String.append_empty]
      refine congrArg String.join (List.filterMap_congr fun child member => ?_)
      by_cases isLast : first.lastChild? id = some child
      · exact same child isLast
      · exact others child member isLast
  | @grown last data _ isLast earlier later listed =>
      obtain ⟨rest, split⟩ := List.getLast?_eq_some_iff.mp isLast
      have distinct := start.nodup_children id
      rw [split] at distinct
      obtain ⟨-, -, apart⟩ := List.nodup_append.mp distinct
      have same : rest.filterMap tree.text? = rest.filterMap first.text? := by
        refine List.filterMap_congr fun child member => others child ?_ fun childLast => ?_
        · rw [split]
          exact List.mem_append_left _ member
        · rw [isLast] at childLast
          cases childLast
          exact apart _ member _ (List.mem_singleton_self _) rfl
      rw [listed, split, List.filterMap_append, List.filterMap_append, same]
      simp [earlier, later, String.append_assoc]
  | @added text _ noText isNew listed isText =>
      have same : (first.children id).filterMap tree.text? =
          (first.children id).filterMap first.text? := by
        refine List.filterMap_congr fun child member => others child member fun isLast => ?_
        have isText := (before child member).1
        rw [noText child isLast] at isText
        exact absurd isText (by simp)
      rw [listed, List.filterMap_append, same]
      simp [isText]

end Content

end Tree

/-! ## Edits of a visit -/

section Visit

variable {scope : Scope} {tree : Tree} {budget : Budget} {html id : NodeId} {element : Element}

theorem LayoutBox.stylesHoldText (forest : tree.Forest)
    (isElement : tree.element? id = some element) (noStyle : tree.isTagged id "style" = false)
    (texts : tree.StylesHoldText) (box : LayoutBox) :
    (box.applyTo tree id).StylesHoldText := by
  have rewritten := Tree.Rewritten.writeAttributes tree id box
  have hasTag := Tree.isSome_tag?_of_element? isElement
  have written := rewritten.stylesHoldText hasTag texts
  have applied := LayoutBox.applied forest (Tree.lt_size_of_element? isElement) box
  generalize box.applyTo tree id = after at applied
  cases applied with
  | silent => exact texts
  | written => exact written
  | sized fronts _ fillers =>
      have stillElement : ((box.writeAttributes tree id).element? id).isSome = true := by
        rw [← rewritten.tag?, Tree.tag?, Option.isSome_map] at hasTag
        exact hasTag
      refine fronts.stylesHoldText stillElement ?_ (fun {other} isNew tagged => ?_) written
      · rw [Tree.isTagged_congr rewritten.tag?, noStyle]
      · obtain ⟨filler, found⟩ :=
          Option.isSome_iff_exists.mp (Tree.isSome_element?_of_isTagged tagged)
        rw [Tree.isTagged_of_element? found, (fillers isNew found).1] at tagged
        exact absurd tagged (by simp)

theorem moveToStylesheet_stylesHoldText (site : tree.Site scope html)
    (settled : budget.Settled tree) (written : scope.written id) (texts : tree.StylesHoldText) :
    (moveToStylesheet budget tree id).tree.StylesHoldText := by
  have outcome := moveToStylesheet_outcome budget tree id
  have rewritten := Tree.Rewritten.ensureId tree id
  have grows : tree.Grows scope Element.Plain (tree.ensureId id).2 := ensureId_grows site written
  have namedSite := site.grown grows
  have namedSettled := settled.grows site grows
  generalize moveToStylesheet budget tree id = result at outcome
  generalize acceptedRules? budget tree id = rules? at outcome
  cases outcome with
  | unread => exact texts
  | bare isElement =>
      exact (Tree.Rewritten.eraseFound tree id _).stylesHoldText (Tree.isSome_tag?_of_element? isElement) texts
  | refused isElement =>
      have named := rewritten.stylesHoldText (Tree.isSome_tag?_of_element? isElement) texts
      dsimp only
      split
      next => exact named
      next =>
        refine ((Tree.Rewritten.refl _ id).eraseAttribute "id").stylesHoldText ?_ named
        rw [rewritten.tag?]
        exact Tree.isSome_tag?_of_element? isElement
  | @accepted _ found isElement =>
      have named := rewritten.stylesHoldText (Tree.isSome_tag?_of_element? isElement) texts
      have sound : Budget.Sound budget (tree.ensureId id).2 :=
        ⟨namedSite.forest, named, namedSettled⟩
      have lands := Budget.add_lands namedSite namedSettled (rulesFor found (tree.ensureId id).1)
      refine (Tree.Rewritten.eraseFound _ id found).stylesHoldText ?_ (sound.add _).texts
      rw [lands.grows.tag? (namedSite.writtenInside id written), rewritten.tag?]
      exact Tree.isSome_tag?_of_element? isElement

namespace Rendering

variable {state : Rendering}

theorem Treated.stylesHoldText {budget : Budget} {tree after : Tree}
    (treated : Treated budget tree id after) (site : tree.Site scope html)
    (settled : budget.Settled tree) (written : scope.written id)
    (isElement : (tree.tag? id).isSome = true) (texts : tree.StylesHoldText) :
    after.StylesHoldText := by
  have moved := moveToStylesheet_stylesHoldText site settled written texts
  have lands := moveToStylesheet_lands site settled written
  have inside := site.writtenInside id written
  cases treated with
  | moved => exact moved
  | @boxed box =>
      rw [← lands.grows.tag? inside, Tree.tag?, Option.isSome_map] at isElement
      obtain ⟨element, found⟩ := Option.isSome_iff_exists.mp isElement
      refine LayoutBox.stylesHoldText lands.grows.forest found ?_ moved box
      rw [Tree.isTagged_congr (lands.grows.tag? inside)]
      exact (site.writtenPlain written).1

theorem visit_stylesHoldText (site : state.tree.Site scope html)
    (settled : state.budget.Settled state.tree) (written : scope.written id)
    (isElement : (state.tree.tag? id).isSome = true) (texts : state.tree.StylesHoldText) :
    (state.visit id).tree.StylesHoldText := by
  have visited := visit_visited state id
  generalize state.visitRules? id = rules? at visited
  generalize (state.visit id).budget = budget at visited
  generalize (state.visit id).tree = after at visited ⊢
  cases visited with
  | skipped => exact texts
  | treated _ treated => exact treated.stylesHoldText site settled written isElement texts

theorem visits_stylesHoldText {ids : List NodeId} (site : state.tree.Site scope html)
    (settled : state.budget.Settled state.tree)
    (reached : ∀ id ∈ ids, scope.written id ∧ scope.given id)
    (elements : ∀ id ∈ ids, (state.tree.tag? id).isSome = true)
    (texts : state.tree.StylesHoldText) : (ids.foldl visit state).tree.StylesHoldText := by
  induction ids generalizing state with
  | nil => exact texts
  | cons id rest ih =>
      rw [List.forall_mem_cons] at reached elements
      obtain ⟨⟨written, receives⟩, reachedLater⟩ := reached
      have lands := visit_lands site settled written receives
      refine ih (site.grown lands.grows) lands.settled reachedLater (fun other member => ?_)
        (visit_stylesHoldText site settled written elements.1 texts)
      rw [lands.grows.tag? (site.writtenInside other (reachedLater other member).1)]
      exact elements.2 other member

end Rendering

end Visit

/-! ## A whole run -/

namespace Rendering

section Run

variable {state : Rendering} {html : NodeId} (registry : ScriptRegistry)
  (forest : state.tree.Forest) (found : state.tree.html? = some html)
  (settled : state.budget.Settled state.tree) (texts : state.tree.StylesHoldText)
include forest found settled texts

theorem visitAll_stylesHoldText : (state.marked html).visitAll.tree.StylesHoldText := by
  have rewritten := (Tree.Rewritten.refl state.tree html).setAttribute layoutMarker ""
  have hasTag := Tree.isSome_tag?_of_isTagged (Tree.html?_eq_some_iff.mp found).2
  refine visits_stylesHoldText (markedSite forest found) (settled_marked forest found settled)
    (fun id member => ?_) (fun id member => ?_) (rewritten.stylesHoldText hasTag texts)
  · have extension := isExtension_of_mem forest found member
    exact ⟨extension, .inr (.inl extension)⟩
  · have same : (state.marked html).tree.tag? id = state.tree.tag? id := rewritten.tag?_eq id
    rw [same]
    exact (isExtension_of_mem forest found member).isSome_tag?

/-- **Styles hold text after a run if they did before.** -/
theorem run_stylesHoldText : (run registry state html).tree.StylesHoldText := by
  have visited := visitAll_stylesHoldText forest found settled texts
  cases headFound : state.tree.head? with
  | none =>
      rw [run_headless forest found settled registry headFound]
      exact visited
  | some head =>
      have isHead := Tree.isTagged_of_head?
        ((head?_visitAll forest found settled).trans headFound)
      obtain ⟨fronts, empty, kinds⟩ := prepared_fronts registry forest found settled headFound
      have prepared : (state.prepared registry html head).tree.StylesHoldText := by
        refine fronts.stylesHoldText (Tree.isSome_element?_of_isTagged isHead)
          (Tree.isTagged_eq_false_of_isTagged isHead (by with_unfolding_all decide)) ?_ visited
        intro other isNew tagged
        by_cases isRuntime : other = (state.marked html).visitAll.tree.size
        · rw [isRuntime, empty]
        · have missing : (state.prepared registry html head).tree.kind? other = none := by
            rw [kinds, if_neg isRuntime, Tree.kind?_of_size_le isNew]
          have isElement := Tree.isSome_element?_of_isTagged tagged
          rw [Tree.element?, missing] at isElement
          exact absurd isElement (by simp)
      cases needs : (state.prepared registry html head).needsBoilerplate with
      | true =>
          rw [run_of_needed forest found headFound settled registry needs]
          exact prepared
      | false =>
          obtain ⟨ids, swept⟩ := run_swept forest found headFound settled registry needs
          have grows := prepared_grows forest found registry settled headFound
          have isHtml := (Tree.html?_eq_some_iff.mp ((forest.site found).html?_of_grows grows)).2
          have hasTag := Tree.isSome_tag?_of_isTagged isHtml
          have marking := (Tree.Rewritten.refl (state.prepared registry html head).tree
            html).setAttribute noBoilerplateMarker ""
          exact swept.pruned.stylesHoldText (marking.stylesHoldText hasTag prepared)

end Run

end Rendering

end FirstPaint
