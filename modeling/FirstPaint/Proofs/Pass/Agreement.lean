import FirstPaint.Pass.Pipeline
import FirstPaint.Proofs.Document.Precedence
import FirstPaint.Proofs.Pass.Resweeping
import FirstPaint.Proofs.Pass.StyleLimit

/-!
# Which style element is the custom stylesheet

Rules are added to the first custom stylesheet below the head. Ordering the head looks at the
children of the head alone, keeps the last one of a group for one node, and puts the groups in
their order. So a stylesheet that is found as a child of the head can be lost in two ways: a
style element that comes later takes its place in the group (`Tree.Supplanted`), or a later
child, which is or contains a custom stylesheet, falls into a group ahead of it
(`Tree.Overtaken`). In every other document both agree, and what is measured stays the same
(`stylesheet_agreement`).

What is found first depends on what is ahead of it. The descendants of the head are listed child
by child and the canonical order group by group, so in both cases a node is ahead of another one
within its part, or because its part is ahead.
-/

set_option autoImplicit false

namespace FirstPaint

/-! ## The first custom stylesheet -/

namespace Tree

/-- A node is a custom stylesheet or contains one. -/
def HoldsCustomStyle (tree : Tree) (top : NodeId) : Prop :=
  ∃ id, tree.Within id top ∧ tree.isStyleMarked id customStyleMarker = true

/-- A custom stylesheet that is a child of the head is found if no child ahead of it is a
custom stylesheet or contains one. -/
theorem Forest.customStyle?_eq_some_iff {tree : Tree} {head style : NodeId} (forest : tree.Forest)
    (headFound : tree.head? = some head) (link : tree.parent? style = some head)
    (marked : tree.isStyleMarked style customStyleMarker = true) :
    tree.customStyle? = some style ↔
      ∀ child, [child, style].Sublist (tree.children head) → ¬ tree.HoldsCustomStyle child := by
  have distinct := forest.nodup_descendants head
  rw [customStyle?, headFound, Option.bind_eq_bind, Option.bind_some,
    find?_eq_some_iff_pair distinct, forest.mem_descendants_iff]
  have ahead : ∀ id, [id, style].Sublist (tree.descendants head) ↔
      ∃ child, [child, style].Sublist (tree.children head) ∧ tree.Within id child := by
    intro id
    rw [forest.descendants_eq, pair_sublist_flatMap_iff]
    constructor
    · rintro (⟨child, member, within⟩ | ⟨child, behind, children, inChild, inBehind⟩)
      · -- The stylesheet is a child itself, so nothing in its subtree is ahead of it.
        have below := forest.mem_descendants_iff.mp (mem_of_pair_sublist_cons within)
        have childLink := forest.mem_children_iff.mp member
        exact absurd below (forest.not_below_sibling link childLink)
      · have behindLink := forest.mem_children_iff.mp (snd_mem_of_pair_sublist children)
        obtain rfl : behind = style := forest.eq_of_within behindLink link
          (forest.mem_cons_descendants_iff.mp inBehind) (.inl rfl)
        exact ⟨child, children, forest.mem_cons_descendants_iff.mp inChild⟩
    · rintro ⟨child, children, within⟩
      exact .inr ⟨child, style, children, forest.mem_cons_descendants_iff.mpr within,
        List.mem_cons_self⟩
  simp only [marked, below_of_parent? link, ahead, true_and]
  constructor
  · rintro none child children ⟨id, within, isCustom⟩
    exact absurd (isCustom.symm.trans (none id ⟨child, children, within⟩)) (by simp)
  · rintro none id ⟨child, children, within⟩
    rw [← Bool.not_eq_true]
    exact fun isCustom => none child children ⟨id, within, isCustom⟩

end Tree

/-! ## The groups of style elements -/

/-- Without names, a group keeps its nodes in their order. -/
theorem HeadGroup.keep_sublist {group : HeadGroup} {tree : Tree} {nodes : List NodeId}
    (unnamed : group.isByName = false) : (group.keep tree nodes).Sublist nodes := by
  cases single : group.isSingle with
  | true =>
      rw [keep_single single]
      cases last : nodes.getLast? with
      | none => exact List.nil_sublist nodes
      | some node => exact List.singleton_sublist.mpr (List.mem_of_getLast? last)
  | false => rw [keep_all single unnamed]

/-- The group into which a style element falls, if the tag is written in lower case. -/
def Tree.styleGroup? (tree : Tree) (id : NodeId) : Option HeadGroup :=
  (tree.element? id).bind fun element =>
    if element.tag = "style" then some (groupOfStyle element.attributes) else none

section Groups

variable {registry : ScriptRegistry} {tree : Tree} {passed : Bool} {id : NodeId}
  {group : HeadGroup}

theorem Tree.styleGroup?_congr {after : Tree} (same : after.kind? id = tree.kind? id) :
    after.styleGroup? id = tree.styleGroup? id := by
  rw [styleGroup?, element?_congr same, styleGroup?]

theorem groupOf?_of_styleGroup? (known : tree.styleGroup? id = some group) :
    groupOf? registry tree passed id = some group := by
  obtain ⟨element, isElement, isStyle⟩ := Option.bind_eq_some_iff.mp known
  split at isStyle
  next tag => simpa only [groupOf?, isElement, tag] using isStyle
  next => exact absurd isStyle (by simp)

theorem groupOfScript_noStyle (registry : ScriptRegistry) (tree : Tree) (script : NodeId) :
    groupOfScript registry tree script ≠ .styleRuntime ∧
      groupOfScript registry tree script ≠ .styleCustom := by
  unfold groupOfScript
  repeat' split
  all_goals decide

theorem groupOfLink_noStyle (attributes : Attributes) (passed : Bool) :
    groupOfLink attributes passed ≠ .styleRuntime ∧
      groupOfLink attributes passed ≠ .styleCustom := by
  unfold groupOfLink
  dsimp only
  repeat' split
  all_goals decide

/-- Only style elements fall into the groups of styles. -/
theorem styleGroup?_of_groupOf? (fell : groupOf? registry tree passed id = some group)
    (isStyle : group = .styleRuntime ∨ group = .styleCustom) :
    tree.styleGroup? id = some group := by
  have clash : ∀ {other : HeadGroup}, some other = some group →
      ¬ (other ≠ .styleRuntime ∧ other ≠ .styleCustom) := by
    rintro other same ⟨noRuntime, noCustom⟩
    rcases isStyle with rfl | rfl
    · exact noRuntime (Option.some.inj same)
    · exact noCustom (Option.some.inj same)
  unfold groupOf? at fell
  cases isElement : tree.element? id with
  | none =>
      simp only [isElement] at fell
      split at fell
      next => exact absurd fell (by simp)
      next => exact absurd (by decide) (clash fell)
  | some element =>
      rw [Tree.styleGroup?, isElement, Option.bind_some]
      simp only [isElement] at fell
      split at fell
      next =>
        refine absurd ?_ (clash fell)
        split <;> decide
      next => exact absurd (groupOfScript_noStyle registry tree id) (clash fell)
      next tag => rwa [if_pos tag]
      next => exact absurd (groupOfLink_noStyle element.attributes passed) (clash fell)
      next => exact absurd (by decide) (clash fell)
      next => exact absurd (by decide) (clash fell)

/-- A style element whose tag is not written in lower case is one of the other nodes. -/
theorem groupOf?_of_styleGroup?_eq_none (tagged : tree.isTagged id "style" = true)
    (unknown : tree.styleGroup? id = none) : groupOf? registry tree passed id = some .others := by
  obtain ⟨element, isElement⟩ :=
    Option.isSome_iff_exists.mp (Tree.isSome_element?_of_isTagged tagged)
  rw [Tree.styleGroup?, isElement, Option.bind_some] at unknown
  rw [Tree.isTagged_of_element? isElement] at tagged
  have apart : ∀ {tag}, Ascii.sameName tag "style" = false → element.tag ≠ tag := by
    rintro tag other rfl
    exact absurd (other.symm.trans tagged) (by simp)
  simp only [groupOf?, isElement]
  split
  next tag => exact absurd tag (apart (by with_unfolding_all decide))
  next tag => exact absurd tag (apart (by with_unfolding_all decide))
  next tag => exact absurd unknown (by simp [tag])
  next tag => exact absurd tag (apart (by with_unfolding_all decide))
  next tag => exact absurd tag (apart (by with_unfolding_all decide))
  next => rfl

/-- A custom stylesheet falls into its group or, if it has the mark of the runtime too, into
that of the style of the runtime. -/
theorem styleGroup?_of_marked (marked : tree.isStyleMarked id customStyleMarker = true)
    (known : tree.styleGroup? id = some group) : group = .styleRuntime ∨ group = .styleCustom := by
  obtain ⟨element, isElement, isStyle⟩ := Option.bind_eq_some_iff.mp known
  rw [Tree.isStyleMarked_eq, isElement, Option.any_some] at marked
  have custom := (Bool.and_eq_true_iff.mp marked).2
  split at isStyle
  next =>
    obtain rfl := Option.some.inj isStyle
    rw [groupOfStyle, if_pos custom]
    split
    next => exact .inl rfl
    next => exact .inr rfl
  next => exact absurd isStyle (by simp)

/-- Nodes whose groups do not depend on what stood before are listed with them. -/
theorem sublist_placements {placed : List Placed} {nodes : List NodeId}
    (steady : ∀ member ∈ placed, ∀ passed,
      groupOf? registry tree passed member.node = some member.group)
    (sublist : (placed.map (·.node)).Sublist nodes) :
    placed.Sublist (placements registry tree passed nodes) := by
  generalize listed : placed.map (·.node) = members at sublist
  induction sublist generalizing placed passed with
  | slnil =>
      rw [List.map_eq_nil_iff.mp listed]
      exact List.nil_sublist _
  | cons node _ ih =>
      unfold placements
      split
      next => exact ih steady listed
      next => exact (ih steady listed).cons _
  | cons_cons node _ ih =>
      obtain ⟨first, others, rfl, rfl, rest⟩ := List.map_eq_cons_iff.mp listed
      rw [List.forall_mem_cons] at steady
      obtain ⟨given, later⟩ := steady
      simp only [placements, given]
      exact (ih later rest).cons_cons first

/-- A custom stylesheet has one group, whatever stands before it. -/
theorem exists_group_of_marked (registry : ScriptRegistry)
    (marked : tree.isStyleMarked id customStyleMarker = true) :
    ∃ group, (∀ passed, groupOf? registry tree passed id = some group) ∧
      group.isByName = false ∧ (tree.styleGroup? id = some group ∨ group = .others) := by
  cases known : tree.styleGroup? id with
  | some group =>
      refine ⟨group, fun passed => groupOf?_of_styleGroup? known, ?_, .inl rfl⟩
      rcases styleGroup?_of_marked marked known with rfl | rfl <;> rfl
  | none =>
      have tagged := Tree.isTagged_style_of_isStyleMarked marked
      exact ⟨.others, fun passed => groupOf?_of_styleGroup?_eq_none tagged known, rfl, .inr rfl⟩

section Nodes

variable {nodes : List NodeId} {style : NodeId}

/-- The sweep keeps the order of the nodes. -/
theorem pair_sublist_of_placements {first second : Placed}
    (placed : [first, second].Sublist (placements registry tree passed nodes)) :
    [first.node, second.node].Sublist nodes :=
  (placed.map Placed.node).trans (placements_sublist registry tree passed nodes)

/-- The group of a custom stylesheet is the one with which it is listed. -/
theorem eq_group_of_mem_placements {other : HeadGroup}
    (steady : ∀ passed, groupOf? registry tree passed style = some group)
    (member : ⟨other, style⟩ ∈ placements registry tree passed nodes) : other = group := by
  rcases groupOf?_of_mem_placements member with given | ⟨given, -⟩
  · exact Option.some.inj (given.symm.trans (steady passed))
  · exact Option.some.inj (given.symm.trans (steady true))

/-- A custom stylesheet is dropped if a later style element falls into its group. -/
theorem dropped_iff_of_marked (registry : ScriptRegistry) (nodes : List NodeId)
    (marked : tree.isStyleMarked style customStyleMarker = true) :
    Dropped tree (placements registry tree false nodes) style ↔
      ∃ later group, [style, later].Sublist nodes ∧ tree.styleGroup? style = some group ∧
        tree.styleGroup? later = some group := by
  obtain ⟨group, steady, -, source⟩ := exists_group_of_marked registry marked
  constructor
  · rintro (blank | ⟨other, later, placed, displaces⟩)
    · have none : groupOf? registry tree false style = none := groupOf?_eq_none_iff.mpr blank
      exact absurd (none.symm.trans (steady false)) (by simp)
    · obtain rfl := eq_group_of_mem_placements steady (fst_mem_of_pair_sublist placed)
      rcases source with known | rfl
      · have isStyle := styleGroup?_of_marked marked known
        have member := snd_mem_of_pair_sublist placed
        have noOther : other ≠ .others := by rcases isStyle with rfl | rfl <;> decide
        have given := groupOf?_false_of_mem_placements member noOther
        exact ⟨later, other, pair_sublist_of_placements placed, known,
          styleGroup?_of_groupOf? given isStyle⟩
      · rcases displaces with single | ⟨named, -⟩
        · exact absurd single (by decide)
        · exact absurd named (by decide)
  · rintro ⟨later, other, sublist, known, same⟩
    have single : other.isSingle = true := by
      rcases styleGroup?_of_marked marked known with rfl | rfl <;> rfl
    refine .inr ⟨other, later, sublist_placements ?_ sublist, .inl single⟩
    intro member listed passed
    rcases List.mem_pair.mp listed with rfl | rfl
    · exact groupOf?_of_styleGroup? known
    · exact groupOf?_of_styleGroup? same

/-- One node of the canonical order stands ahead of another because its group does, or in the
order in which they were. -/
theorem pair_sublist_canonicalOrder {first second : NodeId} {ahead behind : HeadGroup}
    (distinct : nodes.Nodup) (here : ⟨ahead, first⟩ ∈ placements registry tree false nodes)
    (there : ⟨behind, second⟩ ∈ placements registry tree false nodes)
    (unnamed : behind.isByName = false)
    (sublist : [first, second].Sublist (canonicalOrder registry tree nodes)) :
    [ahead, behind].Sublist HeadGroup.all ∨ [first, second].Sublist nodes := by
  rw [canonicalOrder_eq, pair_sublist_flatMap_iff] at sublist
  rcases sublist with ⟨group, -, stay⟩ | ⟨group, other, groups, inGroup, inOther⟩
  · right
    have same : group = behind := group_eq_of_mem_placements distinct
      (mem_placements_of_staying (snd_mem_of_pair_sublist stay))
      there
    subst same
    have inOrder := stay.trans (HeadGroup.keep_sublist unnamed)
    exact pair_sublist_of_placements (pair_sublist_nodesIn_iff.mp inOrder)
  · left
    obtain rfl := group_eq_of_mem_placements distinct (mem_placements_of_staying inGroup) here
    obtain rfl := group_eq_of_mem_placements distinct (mem_placements_of_staying inOther) there
    exact groups

/-- A node of a group ahead stands ahead. -/
theorem pair_sublist_canonicalOrder_of_ahead {first second : NodeId} {ahead behind : HeadGroup}
    (distinct : nodes.Nodup) (here : ⟨ahead, first⟩ ∈ placements registry tree false nodes)
    (there : ⟨behind, second⟩ ∈ placements registry tree false nodes)
    (groups : [ahead, behind].Sublist HeadGroup.all)
    (firstStays : first ∈ canonicalOrder registry tree nodes)
    (secondStays : second ∈ canonicalOrder registry tree nodes) :
    [first, second].Sublist (canonicalOrder registry tree nodes) := by
  rw [canonicalOrder_eq] at firstStays secondStays ⊢
  obtain ⟨group, -, inGroup⟩ := List.mem_flatMap.mp firstStays
  obtain ⟨other, -, inOther⟩ := List.mem_flatMap.mp secondStays
  obtain rfl := group_eq_of_mem_placements distinct (mem_placements_of_staying inGroup) here
  obtain rfl := group_eq_of_mem_placements distinct (mem_placements_of_staying inOther) there
  exact pair_sublist_flatMap_iff.mpr (.inr ⟨group, other, groups, inGroup, inOther⟩)

end Nodes

end Groups

/-! ## Losing the stylesheet -/

namespace Tree

/-- A style element that comes later takes the place of the stylesheet: both fall into one
group, which has room for one. -/
def Supplanted (tree : Tree) (head style : NodeId) : Prop :=
  ∃ later group, [style, later].Sublist (tree.children head) ∧
    tree.styleGroup? style = some group ∧ tree.styleGroup? later = some group

/-- A child of the head that comes later stays in a group ahead of the stylesheet, and is a
custom stylesheet or contains one. -/
def Overtaken (tree : Tree) (registry : ScriptRegistry) (head style : NodeId) : Prop :=
  let placed := placements registry (tree.releaseChildren head) false (tree.children head)
  ∃ later ahead behind, [style, later].Sublist (tree.children head) ∧
    ⟨ahead, later⟩ ∈ placed ∧ ⟨behind, style⟩ ∈ placed ∧
    [ahead, behind].Sublist HeadGroup.all ∧
    ¬ Dropped tree placed later ∧ tree.HoldsCustomStyle later

section HeadOnly

variable {before after : Tree} {head top : NodeId}

/-- A tree in which the head has other children has the same subtrees apart from the head. -/
theorem HeadOnly.descendants_eq (only : HeadOnly before after head) (forest : before.Forest)
    (apart : ¬ before.Within head top) : after.descendants top = before.descendants top := by
  refine forest.descendants_congr only.forest fun id within => only.children ?_
  rintro rfl
  exact apart within

theorem HeadOnly.textContent (only : HeadOnly before after head) (forest : before.Forest)
    (apart : ¬ before.Within head top) : after.textContent top = before.textContent top := by
  have data : after.characterData? = before.characterData? := by
    funext id
    simp only [characterData?, only.kind?]
  rw [Tree.textContent, Tree.textContent, data, only.descendants_eq forest apart]

/-- What a child of the head contains is not changed. -/
theorem HeadOnly.holdsCustomStyle_iff (only : HeadOnly before after head) (forest : before.Forest)
    {child : NodeId} (link : before.parent? child = some head) :
    after.HoldsCustomStyle child ↔ before.HoldsCustomStyle child := by
  have listed := only.descendants_eq forest (forest.not_within_of_below (below_of_parent? link))
  refine exists_congr fun id => ?_
  rw [← only.forest.mem_cons_descendants_iff, listed, forest.mem_cons_descendants_iff,
    isStyleMarked_congr (only.kind? id)]

/-- The body is not in the head. -/
theorem HeadOnly.inlineStyleSize (only : HeadOnly before after head) (forest : before.Forest)
    (headFound : before.head? = some head) : after.inlineStyleSize = before.inlineStyleSize := by
  obtain ⟨html, found, headLink⟩ := forest.exists_html_of_head? headFound
  have parts : ∀ tag, after.htmlChild? tag = before.htmlChild? tag :=
    htmlChild?_congr found (only.html? forest found headFound)
      (only.children (forest.ne_of_parent? headLink)) fun child _ => tag?_congr (only.kind? child)
  have same := body?_congr parts
  cases present : before.body? with
  | none => rw [inlineStyleSize_of_none (same.trans present), inlineStyleSize_of_none present]
  | some body =>
      have apart : ¬ before.Within head body := by
        obtain ⟨other, otherFound, member, -⟩ := body?_eq_some present
        rw [found] at otherFound
        cases otherFound
        rintro (rfl | below)
        · exact body?_ne_head headFound present
        · exact forest.not_below_sibling headLink (forest.mem_children_iff.mp member) below
      rw [inlineStyleSize_of_body? (same.trans present), inlineStyleSize_of_body? present]
      exact sumBelow_congr (only.descendants_eq forest apart) fun id _ =>
        inlineSize_congr (element?_congr (only.kind? id))

end HeadOnly

/-! ## Ordering the head -/

/-- What stays in the head. -/
theorem Forest.mem_headOrder_iff {tree : Tree} {registry : ScriptRegistry} {head child : NodeId}
    (forest : tree.Forest) (headFound : tree.head? = some head)
    (former : child ∈ tree.children head) : child ∈ headOrder registry tree head ↔
      ¬ Dropped tree
        (placements registry (tree.releaseChildren head) false (tree.children head)) child := by
  have same := (forest.released_head headFound).toSameContent
  rw [← dropped_congr same, ← not_mem_canonicalOrder_iff (forest.nodup_children head) former,
    not_not, headOrder]

section Ordered

variable {tree after : Tree} {registry : ScriptRegistry} {head style : NodeId}
  (ordered : HeadOrdered tree after head (headOrder registry tree head)) (forest : tree.Forest)
  (headFound : tree.head? = some head) (link : tree.parent? style = some head)
  (marked : tree.isStyleMarked style customStyleMarker = true)
include ordered forest headFound link marked

/-- A custom stylesheet stays in the head unless a later one takes its place. -/
theorem HeadOrdered.parent?_style :
    after.parent? style = some head ↔ ¬ tree.Supplanted head style := by
  have former := forest.mem_children_iff.mpr link
  have same := (forest.released_head headFound).toSameContent
  have markedThen := (isStyleMarked_congr (same.kind? style) customStyleMarker).trans marked
  have dropped := dropped_iff_of_marked registry (tree.children head) markedThen
  simp only [styleGroup?_congr (same.kind? _)] at dropped
  rw [ordered.parent?_former former, Supplanted, ← dropped, dropped_congr same,
    ← forest.mem_headOrder_iff headFound former]
  split
  next stays => simp [stays]
  next lost => simp [lost]

omit headFound marked in
/-- What is found again is still a child of the head. -/
theorem HeadOrdered.parent?_of_customStyle? (again : after.customStyle? = some style) :
    after.parent? style = some head := by
  obtain ⟨_, -, below, -⟩ := ordered.forest.isCustomStyle_of_customStyle? again
  have links := ordered.parent?_former (forest.mem_children_iff.mpr link)
  split at links
  next => exact links
  next => exact absurd below (not_below_of_parentless links)

/-- What is found again has not been overtaken. -/
theorem HeadOrdered.not_overtaken (again : after.customStyle? = some style) :
    ¬ tree.Overtaken registry head style := by
  rintro ⟨later, ahead, behind, children, here, there, groups, notDropped, holds⟩
  obtain ⟨html, htmlFound, -⟩ := forest.exists_html_of_head? headFound
  have headStays := ordered.head? forest htmlFound headFound
  have stays := ordered.parent?_of_customStyle? forest link again
  have markedAfter := (isStyleMarked_congr (ordered.kind? style) customStyleMarker).trans marked
  have former := snd_mem_of_pair_sublist children
  have inOrder : [later, style].Sublist (after.children head) := by
    rw [ordered.children_head]
    refine pair_sublist_canonicalOrder_of_ahead (forest.nodup_children head) here there groups ?_ ?_
    · exact (forest.mem_headOrder_iff headFound former).mpr notDropped
    · have member := ordered.forest.mem_children_iff.mpr stays
      rwa [ordered.children_head] at member
  have holdsAfter :=
    (ordered.holdsCustomStyle_iff forest (forest.mem_children_iff.mp former)).mpr holds
  exact (ordered.forest.customStyle?_eq_some_iff headStays stays markedAfter).mp again later
    inOrder holdsAfter

/-- A child that is ahead of the stylesheet in the end was so before, or overtakes it. -/
theorem HeadOrdered.found_again (found : tree.customStyle? = some style)
    (stays : after.parent? style = some head)
    (notOvertaken : ¬ tree.Overtaken registry head style) : after.customStyle? = some style := by
  have former := forest.mem_children_iff.mpr link
  have distinct := forest.nodup_children head
  have same := (forest.released_head headFound).toSameContent
  obtain ⟨html, htmlFound, -⟩ := forest.exists_html_of_head? headFound
  have headStays := ordered.head? forest htmlFound headFound
  have markedAfter := (isStyleMarked_congr (ordered.kind? style) customStyleMarker).trans marked
  have markedThen := (isStyleMarked_congr (same.kind? style) customStyleMarker).trans marked
  have clean := (forest.customStyle?_eq_some_iff headFound link marked).mp found
  refine (ordered.forest.customStyle?_eq_some_iff headStays stays markedAfter).mpr ?_
  intro child inOrder holds
  rw [ordered.children_head] at inOrder
  have childStays := fst_mem_of_pair_sublist inOrder
  have childFormer : child ∈ tree.children head := mem_canonicalOrder childStays
  rw [ordered.holdsCustomStyle_iff forest (forest.mem_children_iff.mp childFormer)] at holds
  obtain ⟨ahead, here, -⟩ := (mem_canonicalOrder_iff distinct).mp childStays
  obtain ⟨behind, there, -⟩ :=
    (mem_canonicalOrder_iff distinct).mp (snd_mem_of_pair_sublist inOrder)
  obtain ⟨group, steady, unnamed, -⟩ := exists_group_of_marked registry markedThen
  obtain rfl := eq_group_of_mem_placements steady there
  rcases pair_sublist_canonicalOrder distinct here there unnamed inOrder with groups | earlier
  · have different : child ≠ style := by
      rintro rfl
      exact not_pair_sublist_swap (nodup_canonicalOrder distinct) inOrder inOrder
    rcases pair_sublist_or different childFormer former with earlier | later
    · exact clean child earlier holds
    · have notDropped := (forest.mem_headOrder_iff headFound childFormer).mp childStays
      exact notOvertaken ⟨child, ahead, behind, later, here, there, groups, notDropped, holds⟩
  · exact clean child earlier holds

/-- A custom stylesheet that is found is found again if it stays and is not overtaken. -/
theorem HeadOrdered.customStyle?_style (found : tree.customStyle? = some style) :
    after.customStyle? = some style ↔
      ¬ tree.Supplanted head style ∧ ¬ tree.Overtaken registry head style := by
  rw [← ordered.parent?_style forest headFound link marked]
  constructor
  · intro again
    exact ⟨ordered.parent?_of_customStyle? forest link again,
      ordered.not_overtaken forest headFound link marked again⟩
  · rintro ⟨stays, notOvertaken⟩
    exact ordered.found_again forest headFound link marked found stays notOvertaken

end Ordered

/-- What ordering the head does to a stylesheet that is found as a child of the head. -/
structure StylesheetOrdered (before after : Tree) (registry : ScriptRegistry)
    (head style : NodeId) : Prop where
  /-- It stays unless a later style element takes its place. -/
  parent?_iff : after.parent? style = some head ↔ ¬ before.Supplanted head style
  /-- It is found again unless it is lost or overtaken. -/
  customStyle?_iff : after.customStyle? = some style ↔
    ¬ before.Supplanted head style ∧ ¬ before.Overtaken registry head style
  /-- Its content is the same in any case. -/
  textContent : after.textContent style = before.textContent style
  /-- If it is found again, what is measured is the same. -/
  authorStyleSize : after.customStyle? = some style →
    after.authorStyleSize = before.authorStyleSize

theorem Forest.stylesheetOrdered {tree : Tree} {head style : NodeId} (forest : tree.Forest)
    (headFound : tree.head? = some head) (found : tree.customStyle? = some style)
    (link : tree.parent? style = some head) (registry : ScriptRegistry) :
    StylesheetOrdered tree (orderHead registry tree) registry head style := by
  have ordered := orderHead_headOrdered registry forest headFound
  obtain ⟨_, -, -, marked⟩ := forest.isCustomStyle_of_customStyle? found
  have content := ordered.textContent forest (forest.not_within_of_below (below_of_parent? link))
  refine
    { parent?_iff := ordered.parent?_style forest headFound link marked
      customStyle?_iff := ordered.customStyle?_style forest headFound link marked found
      textContent := content
      authorStyleSize := fun again => ?_ }
  rw [Tree.authorStyleSize, Tree.authorStyleSize, stylesheetSize, stylesheetSize, again, found,
    Option.map_some, Option.map_some, content, ordered.inlineStyleSize forest headFound]

end Tree

/-! ## The two passes together -/

namespace Rendering

variable {state : Rendering} {html head id : NodeId} {css : String}

/-- Accepted rules are in the stylesheet that is at hand in the end. If it is still in the head,
it is the one that is found there. -/
theorem run_located (forest : state.tree.Forest) (found : state.tree.html? = some html)
    (headFound : state.tree.head? = some head) (registry : ScriptRegistry)
    (missing : state.budget.style? = none) (accepted : (id, css) ∈ state.runRules html) :
    ∃ style, (run registry state html).budget.style? = some style ∧
      (run registry state html).tree.Carries style css ∧
      ¬ (run registry state html).tree.Within head style ∧
      ((run registry state html).tree.Below style head →
        (run registry state html).tree.customStyle? = some style) := by
  have settled : state.budget.Settled state.tree := .of_missing missing
  have site := forest.site found
  have grows := prepared_grows forest found registry settled headFound
  have lands := prepared_lands forest found registry settled headFound
  obtain ⟨style, known, holds⟩ := lands.holds ⟨id, accepted⟩
  have houses := prepared_houses_of_style? forest found headFound registry missing known holds
  have present := prepared_located forest found settled registry headFound missing (.inr known)
  have budget : (run registry state html).budget.style? = some style := by
    rw [run_eq forest found headFound settled registry, budget_dropBoilerplate, known]
  refine ⟨style, budget, ?_⟩
  cases needs : (state.prepared registry html head).needsBoilerplate with
  | true =>
      rw [run_of_needed forest found headFound settled registry needs]
      exact ⟨grows.forest.carries_of_marked houses.marked houses.holds,
        grows.forest.not_within_of_below houses.below, fun _ => present⟩
  | false =>
      obtain ⟨ids, swept⟩ := run_swept forest found headFound settled registry needs
      have housed := unswept_houses forest found headFound registry settled houses
      have marking := unswept_inlined forest found settled registry headFound
      have marked := (Tree.isStyleMarked_congr (swept.pruned.kind? style) customStyleMarker).trans
        housed.marked
      refine ⟨swept.pruned.forest.carries_of_marked marked (swept.holdsText housed.holds), ?_, ?_⟩
      · intro within
        refine swept.grows.forest.not_within_of_below housed.below ?_
        exact within.imp_right swept.pruned.below_of_below
      · exact swept.pruned.customStyle? swept.grows.forest (site.html?_of_grows swept.grows)
          ((site.head?_of_grows swept.grows).trans headFound)
          (fun id member => (swept.listed.mp member).1) (marking.customStyle?.trans present)

end Rendering

open Rendering

/-- **The two passes and the custom stylesheet.** Take a document in which the stylesheet that
is found is a child of the head. When the head is ordered, it stays unless a style element that
comes later takes its place in their group. It is found again unless it is lost in this way, or
a later child stays in a group ahead of it and is or contains a custom stylesheet. Its content
stays the same, and so does what is measured if it is found again.

If a document is rendered ahead and its head is ordered then, the rules that were accepted are
in the end in the stylesheet to which they were added. If that is a child of the head in the
rendered document, it is the one that is found there, and what was said applies to it. -/
theorem stylesheet_agreement {tree : Tree} {head : NodeId} (reachable : tree.Reachable)
    (headFound : tree.head? = some head) (registry : ScriptRegistry) :
    (∀ style, tree.customStyle? = some style → tree.parent? style = some head →
      tree.StylesheetOrdered (orderHead registry tree) registry head style) ∧
    ∀ (limit : Nat) (report : Report) (html id : NodeId) (css : String),
      tree.html? = some html → (id, css) ∈ movedRules limit report tree html →
      let rendered := renderAhead registry { limit } report tree
      let final := (Settings.optimize { styleLimit := limit } registry { tree, report }).tree
      ∃ style, rendered.budget.style? = some style ∧ final.Carries style css ∧
        (rendered.tree.parent? style = some head → rendered.tree.customStyle? = some style ∧
          rendered.tree.StylesheetOrdered final registry head style) := by
  have forest := reachable.forest
  refine ⟨fun style found link => forest.stylesheetOrdered headFound found link registry, ?_⟩
  intro limit report html id css found moved rendered final
  obtain ⟨unmarked, accepted⟩ := mem_movedRules_iff.mp moved
  have before : (start limit report tree).tree.Forest := forest
  obtain ⟨renderedForest, -, headStays⟩ :=
    run_stays before found headFound (start_settled limit report tree) registry
  obtain ⟨style, atHand, carries, apart, again⟩ :=
    run_located before found headFound registry rfl accepted
  rw [← renderAhead_budget registry limit report found unmarked] at atHand
  have result := (renderAhead_eq registry limit report found unmarked).1
  rw [← result] at renderedForest headStays
  rw [← result] at carries apart again
  have ordered := orderHead_headOrdered registry renderedForest headStays
  refine ⟨style, atHand, ?_, fun link => ?_⟩
  · have content : final.textContent style = rendered.tree.textContent style :=
      ordered.textContent renderedForest apart
    rw [Tree.Carries, content]
    exact carries
  · have present := again (Tree.below_of_parent? link)
    exact ⟨present, renderedForest.stylesheetOrdered headStays present link registry⟩

namespace Tree

/-- A document whose head has a custom stylesheet and then a declaration of the character set. -/
def lateCharsetTree : Tree :=
  printedTree [.createElement "style" [("amp-custom", "")], .append 2 5,
    .create (.text "p\x7b\x7d"), .append 5 6,
    .createElement "meta" [("charset", "utf-8")], .append 2 7]

/-- A document whose head has two custom stylesheets, of which the first has content. -/
def twiceStyledTree : Tree :=
  built [.createElement "html" [], .append root 1, .createElement "head" [], .append 1 2,
    .createElement "style" [("amp-custom", "")], .append 2 3,
    .create (.text "p\x7b\x7d"), .append 3 4,
    .createElement "style" [("amp-custom", "")], .append 2 5]

end Tree

theorem stylesheet_agreement_lateCharsetTree :
    let ordered := orderHead .published Tree.lateCharsetTree
    let final := (Settings.optimize {} .published { tree := Tree.lateCharsetTree }).tree
    ordered.children 2 = [7, 5] ∧ ¬ Tree.lateCharsetTree.Supplanted 2 5 ∧
      ordered.textContent 5 = "p\x7b\x7d" ∧
      ordered.authorStyleSize = Tree.lateCharsetTree.authorStyleSize ∧
      final.customStyle? = some 5 ∧ final.Carries 5 printRule := by
  intro ordered final
  have reachable : Tree.lateCharsetTree.Reachable := by
    unfold Tree.lateCharsetTree Tree.printedTree
    exact Tree.reachable_built (by decide +kernel)
  have headFound : Tree.lateCharsetTree.head? = some 2 := by decide +kernel
  obtain ⟨ordering, rendering⟩ := stylesheet_agreement reachable headFound .published
  have alone := ordering 5 (by decide +kernel) (by decide +kernel)
  obtain ⟨style, atHand, carries, -⟩ :=
    rendering 75000 ∅ 1 4 printRule (by decide +kernel) (by decide +kernel)
  have located : (renderAhead .published { limit := 75000 } ∅ Tree.lateCharsetTree).budget.style? =
      some 5 := by decide +kernel
  obtain rfl : 5 = style := Option.some.inj (located.symm.trans atHand)
  have content : Tree.lateCharsetTree.textContent 5 = "p\x7b\x7d" := by decide +kernel
  exact ⟨by decide +kernel, alone.parent?_iff.mp (by decide +kernel),
    alone.textContent.trans content, alone.authorStyleSize (by decide +kernel), by decide +kernel,
    carries⟩

/-- The first custom stylesheet of a head is found, and the last one stays. -/
theorem stylesheet_disagreement : ¬ ∀ (registry : ScriptRegistry) (tree : Tree)
    (head style : NodeId), tree.Reachable → tree.head? = some head →
    tree.customStyle? = some style → tree.parent? style = some head →
    (orderHead registry tree).parent? style = some head ∧
      (orderHead registry tree).customStyle? = some style ∧
      (orderHead registry tree).authorStyleSize = tree.authorStyleSize := by
  intro claim
  have reachable : Tree.twiceStyledTree.Reachable := by
    unfold Tree.twiceStyledTree
    exact Tree.reachable_built (by decide +kernel)
  obtain ⟨stays, -⟩ := claim .published Tree.twiceStyledTree 2 3 reachable (by decide +kernel)
    (by decide +kernel) (by decide +kernel)
  exact absurd stays (by decide +kernel)

end FirstPaint
