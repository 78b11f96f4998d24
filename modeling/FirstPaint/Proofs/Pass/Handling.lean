import FirstPaint.Proofs.Layout.Writing
import FirstPaint.Proofs.Pass.Locality
import FirstPaint.Proofs.Responsive.Taking

/-!
# Every extension element is handled once

An extension element outside of templates is visited once. Before its turn and after it
nothing changes it, so what the visit makes of it can be read off in the end. There are
four ways in which a visit goes (`Handled`): the blocking attributes stay and the element
is left as it was; they are moved and no layout can be applied; they are moved and the
element is an audio player, which gets no layout; they are moved and a layout is applied.

Which of the last three it is, and what is written, is a function of the element as it
was in the input (`Element.box`, `LayoutBox.Writes`, `LayoutBox.sizer?`). The rest of the
document has a say only in whether the rules of the element are accepted.
-/

set_option autoImplicit false

namespace FirstPaint

/-- The box that follows from an element alone. -/
def Element.box (element : Element) : Except BoxError LayoutBox :=
  LayoutBox.resolve element.tag ((element.attributes.get? "layout").bind Layout.ofName?)
    (element.attributes.get? "width") (element.attributes.get? "height")
    (element.attributes.hasValue "sizes" || element.attributes.hasValue "heights")

/-- Findings that say nothing of whether an element could be rendered. -/
def FindingKind.IsCheck (kind : FindingKind) : Prop :=
  kind = .boilerplateStays .experiment ∨ kind = .boilerplateStays .audio

/-- What has become of an extension element, given whether its attributes could be moved.
The children are those it had, without some that have been dropped, and the findings about
it come after the given ones. Nodes that are new are those from a bound on. -/
inductive Handled (element : Element) (problem? : Option MoveError) (id : NodeId) (bound : Nat)
    (children dropped : List NodeId) (kinds : List FindingKind) (tree : Tree) (report : Report) :
    Prop where
  /-- The blocking attributes stay, and so does everything else. -/
  | kept {problem : MoveError} (failed : problem? = some problem)
      (same : tree.element? id = some element) (listed : tree.children id = children)
      (said : report.kindsAbout id =
        kinds ++ [.notRendered problem.cause, .boilerplateStays .blockingAttributes])
  /-- The blocking attributes have been moved, and there is no layout. -/
  | unplaced {error : BoxError} {moved : Attributes} (succeeded : problem? = none)
      (unsupported : element.box = .error error) (isMoved : element.attributes.Moved moved)
      (written : tree.element? id = some ⟨element.tag, moved⟩)
      (listed : tree.children id = children)
      (said : report.kindsAbout id =
        kinds ++ [.notRendered error.cause, .boilerplateStays .unsupportedLayout])
  /-- The blocking attributes of an audio player have been moved. -/
  | silent {box : LayoutBox} {moved : Attributes} (succeeded : problem? = none)
      (supported : element.box = .ok box)
      (isAudio : Ascii.sameName element.tag audioTag = true)
      (isMoved : element.attributes.Moved moved)
      (written : tree.element? id = some ⟨element.tag, moved⟩)
      (listed : tree.children id = children.filter (· ∉ dropped))
      (said : report.kindsAbout id = kinds)
  /-- The blocking attributes have been moved and the layout has been written. -/
  | placed {box : LayoutBox} {moved : Attributes} (succeeded : problem? = none)
      (supported : element.box = .ok box)
      (noAudio : Ascii.sameName element.tag audioTag = false)
      (isMoved : element.attributes.Moved moved)
      (written : tree.element? id = some ⟨element.tag, box.written moved⟩)
      (values : box.Writes element.attributes (box.written moved))
      (listed : tree.Fronted id bound (children.filter (· ∉ dropped)) box.sizer?)
      (said : report.kindsAbout id = kinds)

/-! ## One visit -/

/-- The names that decide the box do not block rendering. -/
theorem ofElement_eq_box {before after : Tree} {id : NodeId} {element : Element}
    {moved : Attributes} (isElement : before.element? id = some element)
    (isMoved : element.attributes.Moved moved)
    (written : after.element? id = some ⟨element.tag, moved⟩) :
    LayoutBox.ofElement after id (Rendering.hasConditionalSizes before id) = element.box := by
  have tag : after.tag? id = some element.tag := by rw [Tree.tag?, written, Option.map_some]
  unfold LayoutBox.ofElement Rendering.hasConditionalSizes Element.box
  rw [tag, isElement, Tree.attribute?_of_element? written, Tree.attribute?_of_element? written,
    Tree.attribute?_of_element? written, isMoved.get?_eq "layout" (by with_unfolding_all decide),
    isMoved.get?_eq "width" (by with_unfolding_all decide),
    isMoved.get?_eq "height" (by with_unfolding_all decide)]
  rfl

namespace Rendering

/-- Before its attributes are moved, an element is checked for what delays rendering. -/
theorem kindsAbout_checked (state : Rendering) (id : NodeId) :
    ∃ checks : List FindingKind, (∀ kind ∈ checks, kind.IsCheck) ∧
      ((state.checkExperiment id).checkAudio id).report.kindsAbout id =
        state.report.kindsAbout id ++ checks := by
  have experiment : ∃ checks : List FindingKind, (∀ kind ∈ checks, kind.IsCheck) ∧
      (state.checkExperiment id).report.kindsAbout id = state.report.kindsAbout id ++ checks := by
    unfold checkExperiment
    split
    next => exact ⟨[.boilerplateStays .experiment], by simp [FindingKind.IsCheck],
              kindsAbout_block _ _ _ _⟩
    next => exact ⟨[], by simp, (List.append_nil _).symm⟩
  obtain ⟨checks, areChecks, first⟩ := experiment
  unfold checkAudio
  split
  next =>
    refine ⟨checks ++ [.boilerplateStays .audio], fun kind member => ?_, ?_⟩
    · rcases List.mem_append.mp member with earlier | last
      · exact areChecks kind earlier
      · exact .inr (List.mem_singleton.mp last)
    · rw [kindsAbout_block, first, List.append_assoc]
  next => exact ⟨checks, areChecks, first⟩

/-- Moving its attributes gives an element no children. -/
theorem children_moveToStylesheet {scope : Scope} {tree : Tree} {budget : Budget}
    {html id : NodeId} (site : tree.Site scope html) (settled : budget.Settled tree)
    (written : scope.written id) (noStyle : tree.isTagged id "style" = false)
    (noHead : tree.isTagged id "head" = false) :
    (moveToStylesheet budget tree id).tree.children id = tree.children id := by
  have alone : tree.Site (tree.amongScope [id] []) html := by
    refine site.among (fun other member => ?_) fun other member => ?_
    · rwa [List.mem_singleton.mp member]
    · exact absurd member List.not_mem_nil
  have lands := moveToStylesheet_lands alone settled (List.mem_singleton_self id)
  exact lands.grows.children_among (site.writtenInside id written) List.not_mem_nil noStyle noHead

section Visit

variable {scope : Scope} {state : Rendering} {html id : NodeId} {element : Element}
  (site : state.tree.Site scope html) (settled : state.budget.Settled state.tree)
  (written : scope.written id) (isElement : state.tree.element? id = some element)
  (noStyle : state.tree.isTagged id "style" = false)
  (noHead : state.tree.isTagged id "head" = false) {bound : Nat}
include site settled written isElement noStyle noHead

/-- What treating an element makes of it. Without a problem the boilerplate is not asked
for. -/
theorem treat_handled (old : bound ≤ state.tree.size) :
    Handled element (moveToStylesheet state.budget state.tree id).problem? id bound
      (state.tree.children id) [] (state.report.kindsAbout id) (state.treat id).tree
      (state.treat id).report ∧
    ((state.treat id).needsBoilerplate = false →
      (moveToStylesheet state.budget state.tree id).problem? = none ∧
        ∃ box, element.box = .ok box) := by
  have listed := children_moveToStylesheet site settled written noStyle noHead
  obtain ⟨stays, moves⟩ := element?_moveToStylesheet site settled written isElement
  have lands := moveToStylesheet_lands site settled written
  unfold treat
  dsimp only
  generalize moveToStylesheet state.budget state.tree id = result at *
  cases problem : result.problem? with
  | some problem =>
      refine ⟨.kept rfl (stays (by simp [problem])) listed ?_, fun none => absurd none ?_⟩
      · rw [kindsAbout_block, kindsAbout_note, List.append_assoc]
        rfl
      · simp [block]
  | none =>
      obtain ⟨moved, isMoved, wrote⟩ := moves problem
      have box := ofElement_eq_box isElement isMoved wrote
      unfold layOut
      dsimp only
      rw [box]
      cases supported : element.box with
      | error error =>
          refine ⟨.unplaced rfl supported isMoved wrote listed ?_, fun none => absurd none ?_⟩
          · rw [kindsAbout_block, kindsAbout_note, List.append_assoc]
            rfl
          · simp [block]
      | ok box =>
          refine ⟨?_, fun _ => ⟨rfl, box, rfl⟩⟩
          have tagged := Tree.isTagged_of_element? wrote audioTag
          dsimp only at tagged ⊢
          cases audio : Ascii.sameName element.tag audioTag with
          | true =>
              rw [LayoutBox.applyTo_of_audio (tagged.trans audio)]
              refine .silent rfl supported audio isMoved wrote ?_ rfl
              rw [Tree.filter_not_mem_nil, listed]
          | false =>
              obtain ⟨applied, fronted⟩ :=
                LayoutBox.applyTo_spec lands.grows.forest wrote (tagged.trans audio) box
              refine .placed rfl supported audio isMoved applied ?_ ?_ rfl
              · refine (LayoutBox.written_writes box moved).congr fun name member => ?_
                have apart : ∀ name ∈ writtenNames, Ascii.lower name ∉ "id" :: blockingNames := by
                  with_unfolding_all decide
                exact isMoved.get?_eq name (apart name member)
              · rw [Tree.filter_not_mem_nil, ← listed]
                exact fronted.mono (Nat.le_trans old lands.grows.size_le)

/-- What a visit makes of an element that is in no template. -/
theorem visit_handled (outside : state.tree.isInside id "template" = false)
    (old : bound ≤ state.tree.size) :
    ∃ checks : List FindingKind, (∀ kind ∈ checks, kind.IsCheck) ∧
      Handled element (moveToStylesheet state.budget state.tree id).problem? id bound
        (state.tree.children id) [] (state.report.kindsAbout id ++ checks) (state.visit id).tree
        (state.visit id).report ∧
      ((state.visit id).needsBoilerplate = false →
        (moveToStylesheet state.budget state.tree id).problem? = none ∧
          ∃ box, element.box = .ok box) := by
  obtain ⟨checks, areChecks, said⟩ := kindsAbout_checked state id
  obtain ⟨tree, budget⟩ := checks_eq state id
  have visited : state.visit id = ((state.checkExperiment id).checkAudio id).treat id := by
    rw [visit, if_neg (by simp [outside])]
  refine ⟨checks, areChecks, ?_⟩
  rw [visited, ← said]
  rw [← tree] at site settled isElement noStyle noHead old ⊢
  rw [← budget] at settled ⊢
  exact treat_handled site settled written isElement noStyle noHead old

end Visit

end Rendering

/-! ## After the visit -/

section Later

variable {element : Element} {problem? : Option MoveError} {id : NodeId} {bound : Nat}
  {children dropped : List NodeId} {kinds : List FindingKind} {tree after : Tree}
  {report last : Report}

/-- An element, and with it all nodes that are new, loses dropped children at most. Styles
and heads are left out: new children can come to them. -/
def Tree.ThinsBeside (before after : Tree) (id bound : NodeId) (dropped : List NodeId) : Prop :=
  ∀ node, node = id ∨ bound ≤ node → node < before.size →
    before.isTagged node "style" = false → before.isTagged node "head" = false →
      before.LosesAt after dropped node

/-- A sizer stays in front while only earlier nodes are taken away. -/
theorem Tree.Fronted.later {box : LayoutBox}
    (fronted : tree.Fronted id bound children box.sizer?)
    (thins : tree.ThinsBeside after id bound dropped)
    (earlier : ∀ node ∈ dropped, node < bound) (inside : id < tree.size)
    (noStyle : tree.isTagged id "style" = false) (noHead : tree.isTagged id "head" = false) :
    after.Fronted id bound (children.filter (· ∉ dropped)) box.sizer? := by
  have stays : ∀ {node}, bound ≤ node → node ∉ dropped :=
    fun isNew member => Nat.not_lt_of_le isNew (earlier _ member)
  have listedAfter := (thins id (.inl rfl) inside noStyle noHead).children
  cases chosen : box.sizer? with
  | none =>
      rw [chosen] at fronted
      cases fronted with
      | without listed => exact .without (by rw [listedAfter, listed])
  | some sizer =>
      rw [chosen] at fronted
      cases fronted with
      | @behind sizer front listed isNew newInside isSizer =>
          have parts : ∀ node, node = front ∨ node ∈ tree.children front →
              tree.SameAt after node := by
            intro node part
            obtain ⟨noStyle, noHead⟩ := LayoutBox.sizer?_isTagged chosen isSizer part
            have partNew : bound ≤ node := by
              rcases part with rfl | member
              · exact isNew
              · exact newInside node member
            have loses := thins node (.inr partNew) (isSizer.lt_size part) noStyle noHead
            refine loses.sameAt fun child member => stays ?_
            rcases part with rfl | inner
            · exact newInside child member
            · rw [isSizer.childless inner] at member
              exact absurd member List.not_mem_nil
          refine .behind ?_ isNew ?_ (isSizer.congr parts)
          · rw [listedAfter, listed]
            exact List.filter_cons_of_pos (decide_eq_true (stays isNew))
          · rw [(parts front (.inl rfl)).children]
            exact newInside

/-- What has become of an element stays while others are treated and earlier nodes are
taken away, unless the boilerplate is needed. -/
theorem Handled.later
    (handled : Handled element problem? id bound children [] kinds tree report)
    (thins : tree.ThinsBeside after id bound dropped)
    (earlier : ∀ node ∈ dropped, node < bound)
    (needed : ¬ (problem? = none ∧ ∃ box, element.box = .ok box) → dropped = [])
    (said : last.kindsAbout id = report.kindsAbout id) (inside : id < tree.size)
    (noStyle : tree.isTagged id "style" = false) (noHead : tree.isTagged id "head" = false) :
    Handled element problem? id bound children dropped kinds after last := by
  have loses := thins id (.inl rfl) inside noStyle noHead
  have sameElement := loses.element?
  cases handled with
  | kept failed kept listed saidBefore =>
      rw [needed (by simp [failed])] at loses
      exact .kept failed (sameElement.trans kept)
        ((Tree.losesAt_nil_iff.mp loses).children.trans listed) (said.trans saidBefore)
  | unplaced succeeded unsupported isMoved written listed saidBefore =>
      rw [needed (by simp [unsupported])] at loses
      exact .unplaced succeeded unsupported isMoved (sameElement.trans written)
        ((Tree.losesAt_nil_iff.mp loses).children.trans listed) (said.trans saidBefore)
  | silent succeeded supported isAudio isMoved written listed saidBefore =>
      rw [Tree.filter_not_mem_nil] at listed
      exact .silent succeeded supported isAudio isMoved (sameElement.trans written)
        (by rw [loses.children, listed]) (said.trans saidBefore)
  | placed succeeded supported noAudio isMoved written values fronted saidBefore =>
      rw [Tree.filter_not_mem_nil] at fronted
      exact .placed succeeded supported noAudio isMoved (sameElement.trans written) values
        (fronted.later thins earlier inside noStyle noHead) (said.trans saidBefore)

end Later

/-! ## The turn of an element -/

namespace Rendering

/-- The state in which an extension element is visited. -/
def turn (state : Rendering) (html id : NodeId) : Rendering :=
  ((state.marked html).extensions.takeWhile (· != id)).foldl visit (state.marked html)

section Turn

variable {state : Rendering} {html id : NodeId} {element : Element} (forest : state.tree.Forest)
  (found : state.tree.html? = some html) (extension : state.tree.IsExtension id)
include forest found extension

omit forest in
/-- An extension element is not the html element. -/
theorem ne_html_of_isExtension : id ≠ html := by
  rintro rfl
  have isHtml := (Tree.html?_eq_some_iff.mp found).2
  rw [extension.isTagged_eq_false (by with_unfolding_all decide)] at isHtml
  exact absurd isHtml (by simp)

omit forest in
/-- Marking the html element leaves extension elements alone. -/
theorem marked_sameAt : state.tree.SameAt (state.marked html).tree id := by
  have links := Tree.SameLinks.setAttribute state.tree html layoutMarker ""
  refine ⟨?_, links.children id⟩
  rw [marked, Tree.setAttribute, Tree.element?_modifyAttributes,
    if_neg (ne_html_of_isExtension found extension)]

theorem mem_extensions : id ∈ (state.marked html).extensions := by
  have same := marked_sameAt found extension
  obtain ⟨element, isElement, start⟩ := extension.exists_element
  have grows := marked_grows forest found
  refine List.mem_filter.mpr ⟨?_, ?_⟩
  · exact grows.forest.mem_descendants_iff.mpr (grows.below_of_below extension.1)
  · rw [same.element?, isElement]
    exact start

omit forest found extension in
/-- In a list without repetition, what is ahead of a member is known from the member. -/
theorem takeWhile_ne_eq {ids earlier later : List NodeId} (distinct : ids.Nodup)
    (split : ids = earlier ++ id :: later) : ids.takeWhile (· != id) = earlier := by
  rw [split] at distinct
  obtain ⟨-, -, apart⟩ := List.nodup_append.mp distinct
  rw [split, List.takeWhile_append_of_pos]
  · simp
  · intro other member
    exact bne_iff_ne.mpr (apart other member id List.mem_cons_self)

omit extension in
/-- The turn of an element comes after the visits that are ahead of it. -/
theorem turn_of_split {earlier later : List NodeId}
    (split : (state.marked html).extensions = earlier ++ id :: later) :
    state.tree.IsExtension id ∧ state.turn html id = earlier.foldl visit (state.marked html) := by
  have distinct : (state.marked html).extensions.Nodup :=
    ((marked_grows forest found).forest.nodup_descendants Tree.root).filter _
  constructor
  · refine isExtension_of_mem forest found ?_
    rw [split]
    exact List.mem_append_right _ List.mem_cons_self
  · rw [turn, takeWhile_ne_eq distinct split]

/-- An extension element is visited once: others are visited before its turn, and others
after it. -/
theorem visitAll_eq : ∃ earlier later : List NodeId,
    (∀ other ∈ earlier ++ later, state.tree.IsExtension other) ∧ id ∉ earlier ∧ id ∉ later ∧
      state.turn html id = earlier.foldl visit (state.marked html) ∧
      (state.marked html).visitAll = later.foldl visit ((state.turn html id).visit id) := by
  have grows := marked_grows forest found
  obtain ⟨earlier, later, split⟩ := List.append_of_mem (mem_extensions forest found extension)
  have distinct : (state.marked html).extensions.Nodup :=
    (grows.forest.nodup_descendants Tree.root).filter _
  obtain ⟨-, untilTurn⟩ := turn_of_split forest found split
  rw [split] at distinct
  obtain ⟨-, others, apart⟩ := List.nodup_append.mp distinct
  have before : id ∉ earlier := fun member => apart id member id List.mem_cons_self rfl
  refine ⟨earlier, later, fun other member => ?_, before, (List.nodup_cons.mp others).1,
    untilTurn, ?_⟩
  · refine isExtension_of_mem forest found ?_
    rw [split]
    rcases List.mem_append.mp member with first | second
    · exact List.mem_append_left _ first
    · exact List.mem_append_right _ (List.mem_cons_of_mem id second)
  · have all : (state.marked html).visitAll =
        (state.marked html).extensions.foldl visit (state.marked html) := rfl
    rw [all, split, List.foldl_append, List.foldl_cons, untilTurn]

/-- What is known when the turn of an extension element comes: it is as it was, and
nothing has been said about it. -/
structure AtTurn (state : Rendering) (html id : NodeId) : Prop where
  site : (state.turn html id).tree.Site state.tree.visitScope html
  settled : (state.turn html id).budget.Settled (state.turn html id).tree
  size_le : state.tree.size ≤ (state.turn html id).tree.size
  same : state.tree.SameAt (state.turn html id).tree id
  isInside : ∀ tag, (state.turn html id).tree.isInside id tag = state.tree.isInside id tag
  said : (state.turn html id).report.kindsAbout id = state.report.kindsAbout id

/-- Visits before its turn leave an extension element alone. -/
theorem atTurn (settled : state.budget.Settled state.tree) : state.AtTurn html id := by
  obtain ⟨earlier, later, extensions, apart, -, untilTurn, -⟩ := visitAll_eq forest found extension
  have marking := marked_grows forest found
  have atMark := marked_sameAt found extension
  have site := markedSite forest found
  have inside := Nat.lt_of_lt_of_le extension.lt_size marking.size_le
  have reached : ∀ other ∈ earlier,
      state.tree.visitScope.written other ∧ state.tree.visitScope.given other := by
    intro other member
    have isExtension := extensions other (List.mem_append_left later member)
    exact ⟨isExtension, .inr (.inl isExtension)⟩
  obtain ⟨noStyle, noHead, -⟩ := extension.untagged atMark.tag?
  have settledMark := settled_marked forest found settled
  have lands := visits_lands earlier site settledMark reached
  have same := visits_sameAt site settledMark reached inside apart noStyle noHead
  have said := kindsAbout_foldl (fun state other different => kindsAbout_visit_of_ne different)
    apart (state.marked html)
  rw [← untilTurn] at lands same said
  refine ⟨site.grown lands.grows, lands.settled, ?_, atMark.trans same, fun tag => ?_, said⟩
  · exact Nat.le_trans marking.size_le lands.grows.size_le
  · rw [lands.grows.isInside marking.forest inside, marking.isInside forest extension.lt_size]

/-- Visits after its turn leave an extension element alone, and with it all nodes that are
new and neither styles nor heads. -/
theorem sameAt_visitAll (settled : state.budget.Settled state.tree) {node : NodeId}
    (apart : node = id ∨ state.tree.size ≤ node)
    (inside : node < ((state.turn html id).visit id).tree.size)
    (noStyle : ((state.turn html id).visit id).tree.isTagged node "style" = false)
    (noHead : ((state.turn html id).visit id).tree.isTagged node "head" = false) :
    node < (state.marked html).visitAll.tree.size ∧
      ((state.turn html id).visit id).tree.SameAt (state.marked html).visitAll.tree node := by
  obtain ⟨earlier, later, extensions, -, notLater, -, visited⟩ := visitAll_eq forest found extension
  have turn := atTurn forest found extension settled
  have written : state.tree.visitScope.written id := extension
  have lands := visit_lands turn.site turn.settled written (.inr (.inl extension))
  have site := turn.site.grown lands.grows
  have reached : ∀ other ∈ later,
      state.tree.visitScope.written other ∧ state.tree.visitScope.given other := by
    intro other member
    have isExtension := extensions other (List.mem_append_right earlier member)
    exact ⟨isExtension, .inr (.inl isExtension)⟩
  have notVisited : node ∉ later := by
    intro member
    rcases apart with rfl | isNew
    · exact notLater member
    · have isExtension := extensions node (List.mem_append_right earlier member)
      exact Nat.not_lt_of_le isNew isExtension.lt_size
  rw [visited]
  refine ⟨Nat.lt_of_lt_of_le inside ?_, ?_⟩
  · exact (visits_lands later site lands.settled reached).grows.size_le
  · exact visits_sameAt site lands.settled reached inside notVisited noStyle noHead

/-- Visits after its turn say nothing about an extension element, and they do not take back
that the boilerplate is needed. -/
theorem visitAll_after_turn :
    (state.marked html).visitAll.report.kindsAbout id =
      ((state.turn html id).visit id).report.kindsAbout id ∧
    (((state.turn html id).visit id).needsBoilerplate = true →
      (state.marked html).visitAll.needsBoilerplate = true) := by
  obtain ⟨_, later, -, -, notLater, -, visited⟩ := visitAll_eq forest found extension
  rw [visited]
  have said := kindsAbout_foldl
    (fun state other different => kindsAbout_visit_of_ne different) notLater
    ((state.turn html id).visit id)
  refine ⟨said, fun needs => ?_⟩
  obtain ⟨added, notes⟩ := foldl_notes visit_notes later ((state.turn html id).visit id)
  rw [notes.needs, needs, Bool.true_or]

/-- What has become of an extension element in the end. -/
theorem run_handled (settled : state.budget.Settled state.tree) (registry : ScriptRegistry)
    (outside : state.tree.isInside id "template" = false)
    (isElement : state.tree.element? id = some element) :
    let before := state.turn html id
    let after := run registry state html
    ∃ (checks : List FindingKind) (dropped : List NodeId), (∀ kind ∈ checks, kind.IsCheck) ∧
      (∀ node ∈ dropped, state.tree.IsBoilerplate node ∧
        ∃ head, state.tree.head? = some head ∧ state.tree.Below node head) ∧
      Handled element (moveToStylesheet before.budget before.tree id).problem? id
        state.tree.size (state.tree.children id) dropped
        (state.report.kindsAbout id ++ checks) after.tree after.report := by
  intro before after
  have turn := atTurn forest found extension settled
  obtain ⟨noStyle, noHead, -⟩ := extension.untagged turn.same.tag?
  have written : state.tree.visitScope.written id := extension
  have lands := visit_lands turn.site turn.settled written (.inr (.inl extension))
  obtain ⟨checks, areChecks, handled, needed⟩ := visit_handled turn.site turn.settled written
    (turn.same.element?.trans isElement) noStyle noHead
    ((turn.isInside "template").trans outside) turn.size_le
  have inside : id < before.tree.size := Nat.lt_of_lt_of_le extension.lt_size turn.size_le
  have insideVisit : id < (before.visit id).tree.size :=
    Nat.lt_of_lt_of_le inside lands.grows.size_le
  have visitTag : (before.visit id).tree.tag? id = state.tree.tag? id :=
    (lands.grows.tag? inside).trans turn.same.tag?
  obtain ⟨noStyleVisited, noHeadVisited, -⟩ := extension.untagged visitTag
  obtain ⟨saidLater, needsLater⟩ := visitAll_after_turn forest found extension
  obtain ⟨dropped, boilerplate, free, readings⟩ := run_readings forest found settled registry
  refine ⟨checks, dropped, areChecks, boilerplate, ?_⟩
  rw [turn.same.children, turn.said] at handled
  refine handled.later ?_ (fun node member => (boilerplate node member).1.lt_size) ?_ ?_
    insideVisit noStyleVisited noHeadVisited
  · intro node part insideNode noStyle noHead
    obtain ⟨insideAll, same⟩ :=
      sameAt_visitAll forest found extension settled part insideNode noStyle noHead
    have noHtml : node ≠ html := by
      rcases part with rfl | isNew
      · exact ne_html_of_isExtension found extension
      · have htmlInside := Tree.lt_size_of_isTagged (Tree.html?_eq_some_iff.mp found).2
        exact Nat.ne_of_gt (Nat.lt_of_lt_of_le htmlInside isNew)
    have loses := readings node insideAll noHtml ((same.isTagged "head").trans noHead)
    exact same.losesAt loses
  · intro problem
    refine free (needsLater ?_)
    cases needs : (before.visit id).needsBoilerplate with
    | true => rfl
    | false => exact absurd (needed needs) problem
  · obtain ⟨insideAll, same⟩ := sameAt_visitAll forest found extension settled (.inl rfl)
      insideVisit noStyleVisited noHeadVisited
    obtain ⟨-, noHeadLater, noScript⟩ := extension.untagged (same.tag?.trans visitTag)
    rw [kindsAbout_run forest found settled registry insideAll noScript noHeadLater, saidLater]

end Turn

end Rendering

open Rendering

/-- **Every extension element is handled once, and by itself.** In a document that has not
been rendered before, take an extension element that is in no template. It is visited in
one state, and whether its blocking attributes can be moved then decides together with the
element how it ends. If they cannot, it is what it was, and one problem and its consequence
are reported about it. If they can, the box that follows from the element in the input
decides: without one only the attributes have been moved, and again one problem and its
consequence are reported; with one, classes, style, marker and sizer are those of the box
over the values in the input, and nothing is reported. Attributes that cannot be read are
the element's own; all that the rest of the document decides is whether its rules are
accepted. -/
theorem extension_handled {tree : Tree} {html id : NodeId} {element : Element}
    (registry : ScriptRegistry) (limit : Nat) (report : Report) (reachable : tree.Reachable)
    (found : tree.html? = some html) (unmarked : tree.hasAttribute html layoutMarker = false)
    (extension : tree.IsExtension id) (outside : tree.isInside id "template" = false)
    (isElement : tree.element? id = some element) :
    let before := (start limit report tree).turn html id
    let problem? := (moveToStylesheet before.budget before.tree id).problem?
    let final := renderAhead registry { limit } report tree
    (∀ unreadable, problem? = some (.malformed unreadable) ↔
      element.blockingStyles = .error unreadable) ∧
    ∃ (checks : List FindingKind) (dropped : List NodeId), (∀ kind ∈ checks, kind.IsCheck) ∧
      (∀ node ∈ dropped, tree.IsBoilerplate node ∧
        ∃ head, tree.head? = some head ∧ tree.Below node head) ∧
      Handled element problem? id tree.size (tree.children id) dropped
        (report.kindsAbout id ++ checks) final.tree final.report := by
  intro before problem? final
  have forest : (start limit report tree).tree.Forest := reachable.forest
  have settled := start_settled limit report tree
  have turn := atTurn forest found extension settled
  obtain ⟨sameTree, sameReport⟩ := renderAhead_eq registry limit report found unmarked
  refine ⟨fun unreadable => ?_, ?_⟩
  · exact moveToStylesheet_malformed_iff (turn.same.element?.trans isElement)
  · rw [sameTree, sameReport]
    exact run_handled forest found extension settled registry outside isElement

/-- A document with a picture in a frame and one behind it. The frame cannot be laid out, and its
picture asks for a ratio and has a query of its own. -/
def Tree.framedTree : Tree :=
  Tree.built [.createElement "html" [], .append root 1, .createElement "head" [], .append 1 2,
    .createElement "body" [], .append 1 3,
    .createElement "amp-frame" [("layout", "fluid")], .append 3 4,
    .createElement "amp-img" [("layout", "responsive"), ("width", "8"), ("height", "6"),
      ("class", "wide"), ("media", "print")], .append 4 5,
    .createElement "amp-img" [("width", "3"), ("height", "2"), ("style", "color:red")],
    .append 3 6]

/-- The picture in the frame. -/
def framedPicture : Element :=
  Element.ofPairs "amp-img" [("layout", "responsive"), ("width", "8"), ("height", "6"),
    ("class", "wide"), ("media", "print")]

/-- The frame stays as it is, which is reported. The picture in it gets its layout with a sizer, and
the other one sizes in front of its style. -/
theorem extension_handled_framedTree :
    let final := renderAhead .published { limit := 75000 } ∅ Tree.framedTree
    final.tree.element? 4 = Tree.framedTree.element? 4 ∧
      final.report.kindsAbout 4 =
        [.notRendered .unsupportedLayout, .boilerplateStays .unsupportedLayout] ∧
      final.tree.element? 5 = some ⟨"amp-img", ⟨[⟨"layout", "responsive"⟩, ⟨"width", "8"⟩,
        ⟨"height", "6"⟩,
        ⟨"class", "wide i-amphtml-layout-responsive i-amphtml-layout-size-defined"⟩,
        ⟨"id", "i-amp-0"⟩, ⟨"i-amphtml-layout", "responsive"⟩]⟩⟩ ∧
      final.tree.children 5 = [9] ∧ final.tree.element? 9 = some ⟨"i-amphtml-sizer",
        ⟨[⟨"style", "display:block;padding-top:75.0000%;"⟩]⟩⟩ ∧
      final.tree.attribute? 6 "style" = some "width:3px;height:2px;color:red" ∧
      ∃ (checks : List FindingKind) (dropped : List NodeId), (∀ kind ∈ checks, kind.IsCheck) ∧
        Handled framedPicture none 5 7 [] dropped checks final.tree final.report := by
  intro final
  have reachable : Tree.framedTree.Reachable := by
    unfold Tree.framedTree
    exact Tree.reachable_built (by decide +kernel)
  have isElement : Tree.framedTree.element? 5 = some framedPicture := by decide +kernel
  have extension : Tree.framedTree.IsExtension 5 := by
    refine ⟨reachable.forest.mem_descendants_iff.mp (by decide +kernel), "amp-img", ?_, ?_⟩
    · decide +kernel
    · decide +kernel
  have found : Tree.framedTree.html? = some 1 := by decide +kernel
  obtain ⟨-, checks, dropped, areChecks, -, handled⟩ :=
    extension_handled .published 75000 ∅ reachable found (by decide +kernel) extension
      (by decide +kernel) isElement
  have moves : (moveToStylesheet ((start 75000 ∅ Tree.framedTree).turn 1 5).budget
      ((start 75000 ∅ Tree.framedTree).turn 1 5).tree 5).problem? = none := by decide +kernel
  have size : Tree.framedTree.size = 7 := by decide +kernel
  have childless : Tree.framedTree.children 5 = [] := by decide +kernel
  rw [moves, size, childless] at handled
  refine ⟨by decide +kernel, by decide +kernel, ?_⟩
  rw [← and_assoc, ← and_assoc, ← and_assoc]
  exact ⟨by decide +kernel, checks, dropped, areChecks, handled⟩

end FirstPaint
