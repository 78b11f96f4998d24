import FirstPaint.Proofs.Pass.Footprint
import FirstPaint.Proofs.Pass.Once
import FirstPaint.Proofs.Pass.StyleLimit

/-!
# The frame of a run

What a run of rendering changes is told by a few data (`Rendering.Edits`): the markers that
the html element gets, the place for the style of the runtime, the stylesheet at hand with
the rules that have come to its end, and the nodes that have been dropped. Together with
what happens to the elements that are treated, nothing else about the nodes of the input is
different (`Rendering.Framed`).

A run is framed stage by stage. The visits have a footprint, the place for the style of the
runtime comes in front of the head, the html element is marked once more, and the
boilerplate is dropped. In the end nodes outside of the document are exactly what they were
(`renderAhead_frame`).
-/

set_option autoImplicit false

namespace FirstPaint

/-- The place for the style of the runtime. -/
def runtimeStyle : Element := Element.ofPairs "style" [("amp-runtime", "")]

/-- A stylesheet of the head, or a new node, is not the head. -/
theorem Tree.Forest.head?_ne {tree : Tree} {style : NodeId} (forest : tree.Forest)
    (isSheet : tree.customStyle? = some style ∨ tree.size ≤ style) : tree.head? ≠ some style := by
  intro isHead
  rcases isSheet with present | isNew
  · obtain ⟨head, headFound, below, -⟩ := forest.isCustomStyle_of_customStyle? present
    rw [isHead] at headFound
    cases headFound
    exact forest.not_below_self below
  · exact Nat.not_lt_of_le isNew (Tree.lt_size_of_isTagged (Tree.isTagged_of_head? isHead))

namespace Rendering

/-- What a run does to a document, apart from the elements that it treats. -/
structure Edits where
  /-- The markers that the html element gets, in their order. -/
  marks : List String
  /-- The place for the style of the runtime. -/
  runtime? : Option NodeId := none
  /-- The stylesheet at hand. -/
  sheet? : Option NodeId
  /-- The rules that have come to the end of the stylesheet. -/
  css : String
  /-- The nodes that have been taken away from their parents. -/
  dropped : List NodeId := []

/-- What is left of the children of a node. -/
def Edits.left (edits : Edits) (before : Tree) (id : NodeId) : List NodeId :=
  (before.children id).filter (· ∉ edits.dropped)

/-- What a run leaves of a document. -/
structure Framed (edits : Edits) (before after : Tree) (html : NodeId) : Prop where
  forest : after.Forest
  size_le : before.size ≤ after.size
  parent? : ∀ {id}, id < before.size →
    after.parent? id = if id ∈ edits.dropped then none else before.parent? id
  tag? : ∀ {id}, id < before.size → after.tag? id = before.tag? id
  /-- The html element gets the markers. -/
  marked : ∀ {element}, before.element? html = some element → after.element? html =
    some ⟨element.tag, edits.marks.foldl (·.insert · "") element.attributes⟩
  /-- Attributes and data change nowhere else. -/
  kind? : ∀ {id}, id < before.size → id ≠ html → ¬ before.IsTreated id →
    ¬ before.IsTrailingText id → after.kind? id = before.kind? id
  children : ∀ {id}, id < before.size → ¬ before.IsTreated id → before.head? ≠ some id →
    before.customStyle? ≠ some id → after.children id = edits.left before id
  /-- An element that is treated may get a sizer. -/
  treated : ∀ {id}, before.IsTreated id →
    after.FrontedAtMost id before.size (edits.left before id)
  /-- A stylesheet that is created comes to the end of the head. -/
  head : ∀ {head}, before.head? = some head → after.children head =
    edits.runtime?.toList ++ edits.left before head ++
      if before.customStyle? = none then edits.sheet?.toList else []
  runtime : ∀ {style}, edits.runtime? = some style → before.size ≤ style ∧
    after.element? style = some runtimeStyle ∧ after.children style = []
  sheet : ∀ {style}, before.customStyle? = some style →
    Tree.Ending before after style (edits.left before style) edits.css ∧
      (edits.sheet? = none ∨ edits.sheet? = some style)
  created : ∀ {style}, before.customStyle? = none → edits.sheet? = some style →
    before.size ≤ style ∧ after.kind? style = some Budget.styleKind ∧
      Tree.Ending before after style [] edits.css
  unused : edits.sheet? = none → edits.css = ""
  /-- New elements have no id, and only two of them can be styles. -/
  fresh : ∀ {id element}, before.size ≤ id → after.element? id = some element →
    element.Unnamed ∧ (Ascii.sameName element.tag "style" = true →
      edits.runtime? = some id ∨ edits.sheet? = some id)

/-! ## After the visits -/

section Visits

variable {state : Rendering} {html : NodeId} (forest : state.tree.Forest)
  (found : state.tree.html? = some html)
include forest found

/-- The edits of the visits. -/
def visitEdits (state : Rendering) (html : NodeId) : Edits where
  marks := [layoutMarker]
  sheet? := (state.marked html).visitAll.budget.style?
  css := rulesText (state.runRules html)

/-- What the first marker leaves alone. -/
theorem marked_same : (state.marked html).tree.customStyle? = state.tree.customStyle? ∧
    (∀ id, (state.marked html).tree.text? id = state.tree.text? id) ∧
    ∀ {id}, (state.marked html).tree.IsTrailingText id → state.tree.IsTrailingText id := by
  have rewritten := (Tree.Rewritten.refl state.tree html).setAttribute layoutMarker ""
  have tagged := (Tree.html?_eq_some_iff.mp found).2
  have noStyle : ∀ {tree : Tree}, tree.isTagged html "html" = true →
      tree.isStyleMarked html customStyleMarker = false := by
    intro tree isHtml
    rw [Tree.isStyleMarked,
      Tree.isTagged_eq_false_of_isTagged isHtml (by with_unfolding_all decide), Bool.false_and]
  have sheet : (state.marked html).tree.customStyle? = state.tree.customStyle? := by
    refine rewritten.customStyle? forest ?_
    rw [noStyle tagged, noStyle ((Tree.isTagged_congr rewritten.tag? "html").trans tagged)]
  have texts : ∀ id, (state.marked html).tree.text? id = state.tree.text? id :=
    rewritten.text? (Tree.isSome_tag?_of_isTagged tagged)
  refine ⟨sheet, texts, ?_⟩
  rintro id ⟨style, present, isLast, isText⟩
  refine ⟨style, sheet.symm.trans present, ?_, by rwa [← texts]⟩
  rw [← isLast, Tree.lastChild?, Tree.lastChild?]
  exact congrArg List.getLast? (rewritten.children style).symm

/-- The elements that are visited and treated. -/
theorem treated_iff {id : NodeId} : (id ∈ (state.marked html).extensions ∧
    (state.marked html).tree.isInside id "template" = false) ↔ state.tree.IsTreated id := by
  have grows := marked_grows forest found
  constructor
  · rintro ⟨member, outside⟩
    have extension := isExtension_of_mem forest found member
    rw [grows.isInside forest extension.lt_size] at outside
    exact ⟨extension, outside⟩
  · rintro ⟨extension, outside⟩
    rw [← grows.isInside forest extension.lt_size] at outside
    exact ⟨mem_extensions forest found extension, outside⟩

/-- The footprint of the first visits on the document with its first marker. -/
theorem footprint_of_split (settled : state.budget.Settled state.tree)
    (missing : state.budget.style? = none) {ids rest : List NodeId}
    (split : (state.marked html).extensions = ids ++ rest) :
    Tree.Footprint state.tree.IsTreated (state.marked html).tree
      (ids.foldl visit (state.marked html)).tree
      (ids.foldl visit (state.marked html)).budget.style?
      (rulesText ((state.marked html).acceptedRules ids)) := by
  have grows := marked_grows forest found
  have distinct : ids.Nodup := by
    have all : (state.marked html).extensions.Nodup :=
      (grows.forest.nodup_descendants Tree.root).filter _
    rw [split] at all
    exact (List.nodup_append.mp all).1
  have listed : ∀ {id}, id ∈ ids → id ∈ (state.marked html).extensions := by
    intro id member
    rw [split]
    exact List.mem_append_left rest member
  have extensions : ∀ id ∈ ids, (state.marked html).tree.IsExtension id :=
    fun id member => grows.isExtension (isExtension_of_mem forest found (listed member))
  have start : Tree.Footprint (fun _ => False) (state.marked html).tree (state.marked html).tree
      (state.marked html).budget.style? "" := by
    have none : (state.marked html).budget.style? = none := missing
    rw [none]
    exact .refl grows.forest
  have site := markedSite forest found
  have visited := visits_footprint distinct start site.html? extensions
    (fun _ _ => not_false) site (settled_marked forest found settled) fun id member =>
      ⟨isExtension_of_mem forest found (listed member),
        .inr (.inl (isExtension_of_mem forest found (listed member)))⟩
  rw [String.empty_append] at visited
  refine visited.mono ?_ ?_
  · rintro id (none | ⟨member, outside⟩)
    · exact none.elim
    · exact (treated_iff forest found).mp ⟨listed member, outside⟩
  · rintro id ⟨extension, -⟩
    exact grows.isExtension extension

/-- The footprint of all visits. -/
theorem visitAll_footprint (settled : state.budget.Settled state.tree)
    (missing : state.budget.style? = none) :
    Tree.Footprint state.tree.IsTreated (state.marked html).tree
      (state.marked html).visitAll.tree (state.marked html).visitAll.budget.style?
      (rulesText (state.runRules html)) :=
  footprint_of_split forest found settled missing (List.append_nil _).symm

/-- **The frame of the visits.** -/
theorem visitAll_framed (settled : state.budget.Settled state.tree)
    (missing : state.budget.style? = none) :
    Framed (visitEdits state html) state.tree (state.marked html).visitAll.tree html := by
  have footprint := visitAll_footprint forest found settled missing
  obtain ⟨sheet, texts, trails⟩ := marked_same forest found
  have sameHead := (forest.site found).head?_of_grows (marked_grows forest found)
  have size : (state.marked html).tree.size = state.tree.size := Tree.size_modifyAttributes _
  have rewritten : Tree.Rewritten state.tree (state.marked html).tree html :=
    (Tree.Rewritten.refl state.tree html).setAttribute layoutMarker ""
  have left : ∀ id, (visitEdits state html).left state.tree id =
      (state.marked html).tree.children id := by
    intro id
    rw [Edits.left, rewritten.children]
    exact Tree.filter_not_mem_nil _
  have inside : ∀ {id}, id < state.tree.size → id < (state.marked html).tree.size := by
    intro id old
    rwa [size]
  have ended : ∀ {style children css}, (state.marked html).tree.Ending
      (state.marked html).visitAll.tree style children css →
      state.tree.Ending (state.marked html).visitAll.tree style children css :=
    fun {style} _ _ ending => ending.since (Nat.le_of_eq size.symm)
      (Tree.Ending.lastChild?_of_listed (rewritten.children style)) texts
  refine
    { forest := footprint.forest
      size_le := Nat.le_trans (Nat.le_of_eq size.symm) footprint.size_le
      parent? := fun old => ?_
      tag? := fun old => (footprint.tag? (inside old)).trans (rewritten.tag?_eq _)
      marked := fun {element} isElement => ?_
      kind? := fun {id} old noHtml notTreated noText => ?_
      children := fun {id} old notTreated noHead noSheet => ?_
      treated := fun {id} isTreated => ?_
      head := fun {head} isHead => ?_
      runtime := fun none => absurd none (by simp [visitEdits])
      sheet := fun {style} present => ?_
      created := fun {style} absent known => ?_
      unused := fun none => footprint.sheet.css_of_unused none
      fresh := fun {id element} isNew isElement => ?_ }
  · rw [footprint.parent? (inside old), rewritten.parent?]
    exact (if_neg List.not_mem_nil).symm
  · have noExtension : ¬ (state.marked html).tree.IsExtension html :=
      fun extension => ne_html_of_isExtension (markedSite forest found).html? extension rfl
    rw [(footprint.grows).element? (inside (Tree.lt_size_of_element? isElement))
      noExtension]
    exact Tree.element?_setAttribute isElement layoutMarker ""
  · exact (footprint.kind? (inside old) notTreated fun text => noText (trails text)).trans
      (rewritten.kind? id noHtml)
  · rw [left]
    exact footprint.children (inside old) notTreated (by rwa [sameHead]) (by rwa [sheet])
  · rw [left, ← size]
    exact footprint.fronted isTreated
  · rw [left, footprint.sheet.children_head (sameHead.trans isHead), sheet]
    rfl
  · obtain ⟨ending, known⟩ := footprint.sheet.ending_of_customStyle? (sheet.trans present)
    rw [left]
    exact ⟨ended ending, known⟩
  · obtain ⟨isNew, isStyle, ending⟩ :=
      footprint.sheet.ending_of_created (sheet.trans absent) known
    exact ⟨Nat.le_trans (Nat.le_of_eq size.symm) isNew, isStyle, ended ending⟩
  · obtain ⟨unnamed, known⟩ := footprint.fresh (Nat.le_trans (Nat.le_of_eq size) isNew) isElement
    exact ⟨unnamed, fun isStyle => .inr (known isStyle)⟩

end Visits

/-! ## Further edits -/

namespace Framed

variable {edits : Edits} {before middle after : Tree} {html : NodeId}
  (framed : Framed edits before middle html)
include framed

theorem old {id : NodeId} (inside : id < before.size) : id < middle.size :=
  Nat.lt_of_lt_of_le inside framed.size_le

/-- A way up from a node that was there is a way up of the document before. -/
theorem below_of_below (start : before.Forest) {id top : NodeId} (inside : id < before.size)
    (below : middle.Below id top) : before.Below id top := by
  have links := framed.parent? inside
  induction start.rooted id with
  | top parentless =>
      rw [parentless, ite_self] at links
      exact absurd below (Tree.not_below_of_parentless links)
  | @under id parent link _ ih =>
      rw [link] at links
      split at links
      next => exact absurd below (Tree.not_below_of_parentless links)
      next =>
        have parentInside := start.parent_lt link
        refine (Tree.below_iff_of_parent? link).mpr ?_
        exact ((Tree.below_iff_of_parent? links).mp below).imp_right fun above =>
          ih parentInside above (framed.parent? parentInside)

/-- The only text that changes is the trailing one of the custom stylesheet. -/
theorem text? (isHtml : before.isTagged html "html" = true) {id : NodeId}
    (inside : id < before.size) (noText : ¬ before.IsTrailingText id) :
    middle.text? id = before.text? id := by
  by_cases tagged : (before.tag? id).isSome = true
  · rw [Tree.text?_of_tag? tagged, Tree.text?_of_tag? (by rwa [framed.tag? inside])]
  · have noHtml : id ≠ html := by
      rintro rfl
      exact tagged (Tree.isSome_tag?_of_isTagged isHtml)
    have notTreated : ¬ before.IsTreated id := fun treated => tagged treated.1.isSome_tag?
    exact Tree.text?_congr (framed.kind? inside noHtml notTreated noText)

/-- The stylesheet at hand is that of the document, or it is new. -/
theorem sheet_origin {style : NodeId} (atHand : edits.sheet? = some style) :
    before.customStyle? = some style ∨ before.customStyle? = none ∧ before.size ≤ style := by
  cases present : before.customStyle? with
  | none => exact .inr ⟨rfl, (framed.created present atHand).1⟩
  | some other =>
      obtain ⟨-, none | same⟩ := framed.sheet present
      · exact absurd (none.symm.trans atHand) (by simp)
      · exact .inl (same.symm.trans atHand)

/-- The place for the style of the runtime comes in front of the head. -/
theorem runtimeAdded {head front : NodeId} (start : before.Forest)
    (noRuntime : edits.runtime? = none) (isHead : before.head? = some head)
    (fronts : middle.Fronts after head front) (isStyle : after.element? front = some runtimeStyle)
    (empty : after.children front = [])
    (only : ∀ {id}, middle.size ≤ id → id ≠ front → after.element? id = none) :
    Framed { edits with runtime? := some front } before after html := by
  have extended := fronts.extended
  have texts : ∀ {id}, id < middle.size → after.text? id = middle.text? id :=
    fun inside => Tree.text?_congr (extended.kind? inside)
  have listed : ∀ {id}, id < middle.size → before.head? ≠ some id →
      after.children id = middle.children id := by
    intro id inside noHead
    refine fronts.children inside ?_
    rintro rfl
    exact noHead isHead
  refine
    { forest := extended.forest
      size_le := Nat.le_trans framed.size_le extended.size_le
      parent? := fun inside => (extended.parent? (framed.old inside)).trans (framed.parent? inside)
      tag? := fun inside =>
        (Tree.tag?_congr (extended.kind? (framed.old inside))).trans (framed.tag? inside)
      marked := fun isElement => ?_
      kind? := fun inside noHtml notTreated noText =>
        (extended.kind? (framed.old inside)).trans (framed.kind? inside noHtml notTreated noText)
      children := fun inside notTreated noHead noSheet =>
        (listed (framed.old inside) noHead).trans
          (framed.children inside notTreated noHead noSheet)
      treated := fun {id} isTreated => ?_
      head := fun {other} otherHead => ?_
      runtime := fun {style} known => ?_
      sheet := fun {style} present => ?_
      created := fun {style} absent known => ?_
      unused := framed.unused
      fresh := fun {id element} isNew isElement => ?_ }
  · rw [Tree.element?_congr (extended.kind? (framed.old (Tree.lt_size_of_element? isElement)))]
    exact framed.marked isElement
  · exact (framed.treated isTreated).congr
      (listed (framed.old isTreated.1.lt_size) isTreated.1.not_parts.2.1)
      fun old => Tree.tag?_congr (extended.kind? old)
  · rw [isHead] at otherHead
    cases otherHead
    rw [fronts.listed, framed.head isHead, noRuntime]
    rfl
  · cases known
    exact ⟨Nat.le_trans framed.size_le fronts.isNew, isStyle, empty⟩
  · obtain ⟨ending, known⟩ := framed.sheet present
    have inside := framed.old (start.isCustomStyle_of_customStyle? present).lt_size
    exact ⟨ending.congr start framed.size_le texts
      (listed inside (start.head?_ne (.inl present))), known⟩
  · obtain ⟨isNew, kind, ending⟩ := framed.created absent known
    have inside := Tree.lt_size_of_kind? kind
    exact ⟨isNew, (extended.kind? inside).trans kind, ending.congr start framed.size_le texts
      (listed inside (start.head?_ne (.inr isNew)))⟩
  · by_cases inside : id < middle.size
    · rw [Tree.element?_congr (extended.kind? inside)] at isElement
      obtain ⟨unnamed, known⟩ := framed.fresh isNew isElement
      refine ⟨unnamed, fun style => .inr ((known style).resolve_left ?_)⟩
      simp [noRuntime]
    · by_cases same : id = front
      · rw [same, isStyle] at isElement
        cases isElement
        exact ⟨Element.unnamed_ofPairs (by with_unfolding_all decide) "style",
          fun _ => .inl (congrArg some same.symm)⟩
      · rw [only (Nat.le_of_not_lt inside) same] at isElement
        exact absurd isElement (by simp)

/-- The html element gets another marker. -/
theorem markerAdded (start : before.Forest) (isHtml : before.isTagged html "html" = true)
    (name : String) : Framed { edits with marks := edits.marks ++ [name] } before
      (middle.setAttribute html name "") html := by
  have rewritten : Tree.Rewritten middle (middle.setAttribute html name "") html :=
    (Tree.Rewritten.refl middle html).setAttribute name ""
  have insideHtml := Tree.lt_size_of_isTagged isHtml
  have tagged : (middle.tag? html).isSome = true := by
    rw [framed.tag? insideHtml]
    exact Tree.isSome_tag?_of_isTagged isHtml
  have apart : ∀ {id}, before.size ≤ id → id ≠ html :=
    fun isNew => Nat.ne_of_gt (Nat.lt_of_lt_of_le insideHtml isNew)
  have texts : ∀ {id}, id < middle.size →
      (middle.setAttribute html name "").text? id = middle.text? id :=
    fun _ => rewritten.text? tagged _
  refine
    { forest := framed.forest.congr rewritten.toSameLinks
      size_le := Nat.le_trans framed.size_le (rewritten.size_le tagged)
      parent? := fun inside => (rewritten.parent? _).trans (framed.parent? inside)
      tag? := fun inside => (rewritten.tag?_eq _).trans (framed.tag? inside)
      marked := fun {element} isElement => ?_
      kind? := fun {id} inside noHtml notTreated noText =>
        (rewritten.kind? id noHtml).trans (framed.kind? inside noHtml notTreated noText)
      children := fun inside notTreated noHead noSheet =>
        (rewritten.children _).trans (framed.children inside notTreated noHead noSheet)
      treated := fun isTreated =>
        (framed.treated isTreated).congr (rewritten.children _) fun _ => rewritten.tag?_eq _
      head := fun isHead => (rewritten.children _).trans (framed.head isHead)
      runtime := fun {style} known => ?_
      sheet := fun {style} present => ?_
      created := fun {style} absent known => ?_
      unused := framed.unused
      fresh := fun {id element} isNew isElement => ?_ }
  · rw [Tree.element?_setAttribute (framed.marked isElement), List.foldl_append]
    rfl
  · obtain ⟨isNew, isStyle, empty⟩ := framed.runtime known
    refine ⟨isNew, ?_, (rewritten.children style).trans empty⟩
    exact (Tree.element?_congr (rewritten.kind? style (apart isNew))).trans isStyle
  · obtain ⟨ending, known⟩ := framed.sheet present
    exact ⟨ending.congr start framed.size_le texts (rewritten.children style), known⟩
  · obtain ⟨isNew, kind, ending⟩ := framed.created absent known
    exact ⟨isNew, (rewritten.kind? style (apart isNew)).trans kind,
      ending.congr start framed.size_le texts (rewritten.children style)⟩
  · rw [Tree.element?_congr (rewritten.kind? id (apart isNew))] at isElement
    exact framed.fresh isNew isElement

/-- Nodes that were there are taken away from their parents. -/
theorem pruned {ids : List NodeId} (start : before.Forest) (nothing : edits.dropped = [])
    (pruned : middle.Pruned after ids) (earlier : ∀ id ∈ ids, id < before.size) :
    Framed { edits with dropped := ids } before after html := by
  have stays : ∀ {id}, before.size ≤ id → decide (id ∉ ids) = true :=
    fun isNew => decide_eq_true fun member => Nat.not_lt_of_le isNew (earlier _ member)
  have left : ∀ id, edits.left before id = before.children id := by
    intro id
    rw [Edits.left, nothing]
    exact Tree.filter_not_mem_nil _
  have texts : ∀ {id}, id < middle.size → after.text? id = middle.text? id :=
    fun {id} _ => Tree.text?_congr (pruned.kind? id)
  have lost : ∀ {id}, middle.children id = edits.left before id →
      after.children id = (before.children id).filter (· ∉ ids) := by
    intro id listed
    rw [pruned.children, listed, left]
  refine
    { forest := pruned.forest
      size_le := Nat.le_trans framed.size_le (Nat.le_of_eq pruned.size.symm)
      parent? := fun {id} inside => ?_
      tag? := fun inside => (Tree.tag?_congr (pruned.kind? _)).trans (framed.tag? inside)
      marked := fun isElement =>
        (Tree.element?_congr (pruned.kind? html)).trans (framed.marked isElement)
      kind? := fun inside noHtml notTreated noText =>
        (pruned.kind? _).trans (framed.kind? inside noHtml notTreated noText)
      children := fun inside notTreated noHead noSheet =>
        lost (framed.children inside notTreated noHead noSheet)
      treated := fun isTreated => ?_
      head := fun {head} isHead => ?_
      runtime := fun {style} known => ?_
      sheet := fun {style} present => ?_
      created := fun {style} absent known => ?_
      unused := framed.unused
      fresh := fun {id element} isNew isElement => ?_ }
  · rw [pruned.parent?, framed.parent? inside, nothing, if_neg List.not_mem_nil]
  · have fronted := framed.treated isTreated
    rw [left] at fronted
    exact fronted.thin _ (pruned.children _) stays fun _ => Tree.tag?_congr (pruned.kind? _)
  · have kept : ∀ {new : List NodeId}, (∀ id ∈ new, before.size ≤ id) →
        new.filter (· ∉ ids) = new :=
      fun isNew => List.filter_eq_self.mpr fun id member => stays (isNew id member)
    have behind : (if before.customStyle? = none then edits.sheet?.toList else []).filter
        (· ∉ ids) = if before.customStyle? = none then edits.sheet?.toList else [] := by
      refine kept fun id member => ?_
      split at member
      next absent => exact (framed.created absent (Option.mem_toList.mp member)).1
      next => exact absurd member List.not_mem_nil
    rw [pruned.children, framed.head isHead, left, List.filter_append, List.filter_append, behind,
      kept fun id member => (framed.runtime (Option.mem_toList.mp member)).1]
    rfl
  · obtain ⟨isNew, isStyle, empty⟩ := framed.runtime known
    refine ⟨isNew, (Tree.element?_congr (pruned.kind? style)).trans isStyle, ?_⟩
    rw [pruned.children, empty, List.filter_nil]
  · obtain ⟨ending, known⟩ := framed.sheet present
    rw [left] at ending
    exact ⟨ending.thin start framed.size_le texts _ (pruned.children style) stays, known⟩
  · obtain ⟨isNew, kind, ending⟩ := framed.created absent known
    exact ⟨isNew, (pruned.kind? style).trans kind,
      ending.thin start framed.size_le texts _ (pruned.children style) stays⟩
  · rw [Tree.element?_congr (pruned.kind? id)] at isElement
    exact framed.fresh isNew isElement

end Framed

/-! ## A whole run -/

/-- The edits are those of a run that accepts some rules. -/
structure Edits.OfRun (edits : Edits) (before : Tree) (budget : Budget)
    (rules : List (NodeId × String)) : Prop where
  css : edits.css = rulesText rules
  sheet? : edits.sheet? = budget.style?
  runtime? : edits.runtime?.isSome = before.head?.isSome
  /-- The boilerplate of the head goes, or nothing does. -/
  swept : edits.marks = [layoutMarker] ∧ edits.dropped = [] ∨
    edits.marks = [layoutMarker, noBoilerplateMarker] ∧ ∃ head, before.head? = some head ∧
      ∀ id, id ∈ edits.dropped ↔ before.Below id head ∧ before.IsBoilerplate id

theorem Edits.OfRun.dropped_below {edits : Edits} {before : Tree} {budget : Budget}
    {rules : List (NodeId × String)} (ofRun : edits.OfRun before budget rules) {id : NodeId}
    (member : id ∈ edits.dropped) :
    ∃ head, before.head? = some head ∧ before.Below id head ∧ before.IsBoilerplate id := by
  rcases ofRun.swept with ⟨-, none⟩ | ⟨-, head, headFound, listed⟩
  · rw [none] at member
    exact absurd member List.not_mem_nil
  · exact ⟨head, headFound, (listed id).mp member⟩

section Run

variable {state : Rendering} {html head : NodeId} (registry : ScriptRegistry)

/-- Once the elements are visited, the budget is left alone. -/
theorem run_budget : (run registry state html).budget = (state.marked html).visitAll.budget := by
  unfold run
  dsimp only
  split
  next => rfl
  next head _ =>
    rw [budget_dropBoilerplate]
    exact (checkScripts_eq registry ((state.marked html).visitAll.addRuntimeStyle head) head).2

variable (forest : state.tree.Forest) (found : state.tree.html? = some html)
  (settled : state.budget.Settled state.tree) (missing : state.budget.style? = none)
include forest found settled missing

omit missing in
/-- The place for the style of the runtime is all that comes between the visits and the
sweep. -/
theorem prepared_fronts (headFound : state.tree.head? = some head) :
    let visited := (state.marked html).visitAll.tree
    let after := (state.prepared registry html head).tree
    visited.Fronts after head visited.size ∧ after.children visited.size = [] ∧
      ∀ id, after.kind? id =
        if id = visited.size then some (.element runtimeStyle) else visited.kind? id := by
  intro visited after
  have isHead := Tree.isTagged_of_head? ((head?_visitAll forest found settled).trans headFound)
  obtain ⟨result, done, fronts⟩ := (visitAll_lands forest found settled).grows.forest.fronts_create
    (Tree.lt_size_of_isTagged isHead) (.element runtimeStyle)
  have same : after = result := (checkScripts_eq registry _ head).1.trans done
  rw [same]
  exact fronts

theorem prepared_framed (headFound : state.tree.head? = some head) :
    Framed { visitEdits state html with runtime? := some (state.marked html).visitAll.tree.size }
      state.tree (state.prepared registry html head).tree html := by
  have framed := visitAll_framed forest found settled missing
  obtain ⟨fronts, empty, kinds⟩ := prepared_fronts registry forest found settled headFound
  refine framed.runtimeAdded forest rfl headFound fronts ?_ empty fun {id} isNew different => ?_
  · exact Tree.element?_eq_some_iff.mpr ((kinds _).trans (if_pos rfl))
  · rw [Tree.element?, kinds, if_neg different, Tree.kind?_of_size_le isNew]

/-- **The frame of a run.** -/
theorem run_framed : ∃ edits : Edits,
    edits.OfRun state.tree (run registry state html).budget (state.runRules html) ∧
      Framed edits state.tree (run registry state html).tree html := by
  rw [run_budget]
  cases headFound : state.tree.head? with
  | none =>
      rw [run_headless forest found settled registry headFound]
      refine ⟨visitEdits state html, ⟨rfl, rfl, ?_, .inl ⟨rfl, rfl⟩⟩,
        visitAll_framed forest found settled missing⟩
      rw [headFound]
      rfl
  | some head =>
      have framed := prepared_framed registry forest found settled missing headFound
      cases needs : (state.prepared registry html head).needsBoilerplate with
      | true =>
          rw [run_of_needed forest found headFound settled registry needs]
          refine ⟨_, ⟨rfl, rfl, ?_, .inl ⟨rfl, rfl⟩⟩, framed⟩
          rw [headFound]
          rfl
      | false =>
          obtain ⟨ids, swept⟩ := run_swept forest found headFound settled registry needs
          have marked := framed.markerAdded forest (Tree.html?_eq_some_iff.mp found).2
            noBoilerplateMarker
          refine ⟨_, ⟨rfl, rfl, ?_, .inr ⟨rfl, head, headFound, fun _ => swept.mem_iff⟩⟩,
            marked.pruned forest rfl swept.pruned fun id member => ?_⟩
          · rw [headFound]
            rfl
          · exact (swept.mem_iff.mp member).2.lt_size

end Run

end Rendering

/-- A frame leaves nodes alone that are not in the document. -/
theorem Rendering.Framed.detached {edits : Rendering.Edits} {before after : Tree}
    {html id : NodeId} (framed : Rendering.Framed edits before after html) (forest : before.Forest)
    (found : before.html? = some html) {budget : Budget} {rules : List (NodeId × String)}
    (ofRun : edits.OfRun before budget rules) (inside : id < before.size)
    (apart : ¬ before.Within id Tree.root) : after.node? id = before.node? id := by
  have htmlBelow := Tree.below_of_parent? (forest.parent?_of_html? found)
  have headBelow : ∀ {head}, before.head? = some head → before.Below head Tree.root :=
    fun headFound =>
      (Tree.below_of_parent? (forest.parent?_of_head? found headFound)).trans htmlBelow
  have noHtml : id ≠ html := by
    rintro rfl
    exact apart (.inr htmlBelow)
  have notTreated : ¬ before.IsTreated id := fun treated => apart (.inr treated.1.1)
  have noHead : before.head? ≠ some id := fun isHead => apart (.inr (headBelow isHead))
  have styleBelow : ∀ {style}, before.customStyle? = some style →
      before.Below style Tree.root := by
    intro style present
    obtain ⟨head, headFound, below, -⟩ := forest.isCustomStyle_of_customStyle? present
    exact below.trans (headBelow headFound)
  have noText : ¬ before.IsTrailingText id := by
    rintro ⟨style, present, isLast, -⟩
    have link := forest.mem_children_iff.mp (List.mem_of_getLast? isLast)
    exact apart (.inr ((Tree.below_of_parent? link).trans (styleBelow present)))
  have stays : ∀ {other}, other ∈ edits.dropped → before.Below other Tree.root := by
    intro other member
    obtain ⟨head, headFound, below, -⟩ := ofRun.dropped_below member
    exact below.trans (headBelow headFound)
  refine Tree.node?_congr (framed.kind? inside noHtml notTreated noText) ?_ ?_
  · rw [framed.parent? inside, if_neg fun member => apart (.inr (stays member))]
  · rw [framed.children inside notTreated noHead
      fun present => apart (.inr (styleBelow present))]
    refine List.filter_eq_self.mpr fun child member => decide_eq_true fun dropped => ?_
    -- What is below the document has its parent in the document.
    rcases (Tree.below_iff_of_parent? (forest.mem_children_iff.mp member)).mp (stays dropped)
      with isRoot | below
    · exact apart (.inl isRoot)
    · exact apart (.inr below)

open Rendering

/-- **The frame of rendering.** Nodes that are not in the document stay exactly what they are,
and a document without an html element, or with a marked one, stays as a whole. In every other
document all that changes is the markers of the html element, the elements that are treated,
the first and the last child of the head, the end of the custom stylesheet, and the parents
of the boilerplate below the head. -/
theorem renderAhead_frame {tree : Tree} (registry : ScriptRegistry) (limit : Nat)
    (report : Report) (reachable : tree.Reachable) :
    let rendered := renderAhead registry { limit } report tree
    (∀ id < tree.size, ¬ tree.Within id Tree.root → rendered.tree.node? id = tree.node? id) ∧
      (tree.Marked → rendered.tree = tree) ∧
      ∀ html, tree.html? = some html → tree.hasAttribute html layoutMarker = false →
        ∃ edits : Edits,
          edits.OfRun tree rendered.budget (movedRules limit report tree html) ∧
            Framed edits tree rendered.tree html := by
  intro rendered
  have forest := reachable.forest
  have silent : tree.Marked → rendered.tree = tree :=
    fun marked => congrArg Rendered.tree (renderAhead_of_marked marked registry _ report)
  have framed : ∀ html, tree.html? = some html → tree.hasAttribute html layoutMarker = false →
      ∃ edits : Edits, edits.OfRun tree rendered.budget (movedRules limit report tree html) ∧
        Framed edits tree rendered.tree html := by
    intro html found unmarked
    have before : (start limit report tree).tree.Forest := forest
    have run := run_framed registry before found (start_settled limit report tree) rfl
    rw [← renderAhead_budget registry limit report found unmarked,
      ← (renderAhead_eq registry limit report found unmarked).1] at run
    rwa [movedRules, if_neg (by simp [unmarked])]
  refine ⟨fun id inside apart => ?_, silent, framed⟩
  by_cases marked : tree.Marked
  · rw [silent marked]
  · unfold Tree.Marked at marked
    push Not at marked
    obtain ⟨html, found, unmarked⟩ := marked
    obtain ⟨edits, ofRun, frame⟩ := framed html found (by simpa using unmarked)
    exact frame.detached forest found ofRun inside apart

/-- A document with a comment and an image below its body, and an image that is not in it. -/
def Tree.commentedTree : Tree :=
  printedTree [.create (.comment "note"), .append 3 5,
    .createElement "amp-img" [("id", "b"), ("media", "print")]]

theorem renderAhead_frame_commentedTree :
    let final := (renderAhead .published { limit := 75000 } ∅ Tree.commentedTree).tree
    final.node? 6 = Tree.commentedTree.node? 6 ∧ final.kind? 5 = some (.comment "note") ∧
      final.children 3 = [4, 5] ∧
      ∃ style sheet, final.children 2 = [style, sheet] ∧
        final.element? style = some runtimeStyle ∧
        Tree.Ending Tree.commentedTree final sheet [] printRule := by
  intro final
  have reachable : Tree.commentedTree.Reachable := by
    unfold Tree.commentedTree Tree.printedTree
    exact Tree.reachable_built (by decide +kernel)
  obtain ⟨apart, -, framed⟩ := renderAhead_frame .published 75000 ∅ reachable
  obtain ⟨edits, ofRun, frame⟩ := framed 1 (by decide +kernel) (by decide +kernel)
  have headFound : Tree.commentedTree.head? = some 2 := by decide +kernel
  have noSheet : Tree.commentedTree.customStyle? = none := by decide +kernel
  have clean : ∀ id < Tree.commentedTree.size, ¬ Tree.commentedTree.IsBoilerplate id := by
    decide +kernel
  have nothing : edits.dropped = [] := by
    refine List.eq_nil_iff_forall_not_mem.mpr fun id member => ?_
    obtain ⟨_, -, -, boilerplate⟩ := ofRun.dropped_below member
    exact clean id boilerplate.lt_size boilerplate
  have left : ∀ id, edits.left Tree.commentedTree id = Tree.commentedTree.children id := by
    intro id
    rw [Edits.left, nothing]
    exact Tree.filter_not_mem_nil _
  have plain : ∀ id, (Tree.commentedTree.tag? id).any isExtensionTag = false →
      ¬ Tree.commentedTree.IsTreated id := by
    rintro id none ⟨⟨-, tag, tagged, extension⟩, -⟩
    rw [tagged, Option.any_some, extension] at none
    exact absurd none (by simp)
  have noText : ∀ id, ¬ Tree.commentedTree.IsTrailingText id := by
    rintro id ⟨_, present, -⟩
    exact absurd (noSheet.symm.trans present) (by simp)
  obtain ⟨style, runtime⟩ := Option.isSome_iff_exists.mp (ofRun.runtime?.trans (by decide +kernel))
  have sheet : edits.sheet? = some 7 := ofRun.sheet?.trans (by decide +kernel)
  have css : edits.css = printRule := ofRun.css.trans (by decide +kernel)
  refine ⟨apart 6 (by decide +kernel) ?_, ?_, ?_, style, 7, ?_, (frame.runtime runtime).2.1, ?_⟩
  · rintro (isRoot | below)
    · exact absurd isRoot (by decide +kernel)
    · exact Tree.not_below_of_parentless (by decide +kernel) below
  · exact (frame.kind? (by decide +kernel) (by decide +kernel) (plain 5 (by decide +kernel))
      (noText 5)).trans (by decide +kernel)
  · rw [frame.children (by decide +kernel) (plain 3 (by decide +kernel)) (by decide +kernel)
      (by decide +kernel), left]
    decide +kernel
  · rw [frame.head headFound, runtime, sheet, left, if_pos noSheet]
    rfl
  · rw [← css]
    exact (frame.created noSheet sheet).2.2

end FirstPaint
