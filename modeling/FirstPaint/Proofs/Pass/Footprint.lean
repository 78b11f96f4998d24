import FirstPaint.Proofs.Layout.Fronting
import FirstPaint.Proofs.Pass.LayoutGain
import FirstPaint.Proofs.Responsive.Outcomes

/-!
# The footprint of the visits

What the visits of some elements leave of a first tree is said node by node
(`Tree.Footprint`). An element that has been visited may have other attributes and one
sizer in front of its children. The head may have a new stylesheet behind its children,
the stylesheet at hand ends with the accepted rules (`Tree.Sheet`), and everything else is
what and where it was.

Three kinds of edits make up a visit: attributes of the visited element are written anew
(`rewritten`), rules are added for it (`add`), and a sizer comes in front (`fronts`). Each
of them keeps the footprint, so a visit does, and so do visits one after another
(`Rendering.visits_footprint`).
-/

set_option autoImplicit false

namespace FirstPaint

namespace Tree

/-- The text at the end of the custom stylesheet. -/
def IsTrailingText (tree : Tree) (id : NodeId) : Prop :=
  ∃ style, tree.customStyle? = some style ∧ tree.lastChild? style = some id ∧
    (tree.text? id).isSome = true

theorem IsTrailingText.text? {tree : Tree} {id : NodeId} (trails : tree.IsTrailingText id) :
    ∃ data, tree.text? id = some data := by
  obtain ⟨_, -, -, isText⟩ := trails
  exact Option.isSome_iff_exists.mp isText

/-- The head and the custom stylesheet since a first tree, given the stylesheet at hand and
the rules that it has taken. -/
inductive Sheet (first tree : Tree) : Option NodeId → String → Prop where
  /-- No stylesheet is at hand. -/
  | absent (same : tree.customStyle? = first.customStyle?)
      (head : ∀ head, first.head? = some head → tree.children head = first.children head)
      (ending : ∀ style, first.customStyle? = some style →
        Ending first tree style (first.children style) "") :
      Sheet first tree none ""
  /-- The stylesheet of the first tree is at hand. -/
  | found {style : NodeId} {css : String} (present : first.customStyle? = some style)
      (head : ∀ head, first.head? = some head → tree.children head = first.children head)
      (ending : Ending first tree style (first.children style) css) :
      Sheet first tree (some style) css
  /-- The first tree has no stylesheet, and one has come to the end of the head. -/
  | created {head style : NodeId} {css : String} (absent : first.customStyle? = none)
      (isNew : first.size ≤ style) (headFound : first.head? = some head)
      (listed : tree.children head = first.children head ++ [style])
      (isStyle : tree.kind? style = some Budget.styleKind)
      (ending : Ending first tree style (first.children style) css) :
      Sheet first tree (some style) css

namespace Sheet

variable {first tree : Tree} {style? : Option NodeId} {css : String} {head style : NodeId}
  (sheet : Sheet first tree style? css)
include sheet

theorem children_head (isHead : first.head? = some head) : tree.children head =
    first.children head ++ if first.customStyle? = none then style?.toList else [] := by
  cases sheet with
  | absent _ same =>
      rw [same head isHead, Option.toList_none, ite_self, List.append_nil]
  | found present same =>
      rw [same head isHead, if_neg (by simp [present]), List.append_nil]
  | created absent _ headFound listed =>
      rw [isHead] at headFound
      cases headFound
      rw [listed, if_pos absent, Option.toList_some]

theorem ending_of_customStyle? (present : first.customStyle? = some style) :
    Ending first tree style (first.children style) css ∧
      (style? = none ∨ style? = some style) := by
  cases sheet with
  | absent _ _ ending => exact ⟨ending style present, .inl rfl⟩
  | found other _ ending =>
      rw [present] at other
      cases other
      exact ⟨ending, .inr rfl⟩
  | created absent => exact absurd (absent.symm.trans present) (by simp)

theorem ending_of_created (absent : first.customStyle? = none) (known : style? = some style) :
    first.size ≤ style ∧ tree.kind? style = some Budget.styleKind ∧
      Ending first tree style [] css := by
  cases sheet with
  | absent => exact absurd known (by simp)
  | found present => exact absurd (absent.symm.trans present) (by simp)
  | created _ isNew _ _ isStyle ending =>
      cases known
      rw [children_of_size_le isNew] at ending
      exact ⟨isNew, isStyle, ending⟩

/-- A text at the end of the stylesheet at hand is new, or it trails in the first tree. -/
theorem origin_of_lastChild? {last : NodeId} {data : String} (known : style? = some style)
    (isLast : tree.lastChild? style = some last) (isText : tree.text? last = some data) :
    first.size ≤ last ∨ first.IsTrailingText last := by
  cases sheet with
  | absent => exact absurd known (by simp)
  | found present _ ending =>
      cases known
      refine (ending.last_of_text? isLast isText).imp_right ?_
      rintro ⟨firstLast, firstText⟩
      exact ⟨style, present, firstLast, firstText⟩
  | created _ isNew _ _ _ ending =>
      cases known
      refine (ending.last_of_text? isLast isText).imp_right ?_
      rintro ⟨firstLast, -⟩
      rw [lastChild?, children_of_size_le isNew] at firstLast
      exact absurd firstLast (by simp)

theorem css_of_unused (unused : style? = none) : css = "" := by
  cases sheet with
  | absent => rfl
  | found => exact absurd unused (by simp)
  | created => exact absurd unused (by simp)

end Sheet

/-- The node has the given children, behind a new sizer at most. -/
def FrontedAtMost (tree : Tree) (id : NodeId) (bound : Nat) (children : List NodeId) : Prop :=
  tree.children id = children ∨ ∃ sizer, bound ≤ sizer ∧ tree.children id = sizer :: children ∧
    tree.isTagged sizer sizerTag = true

namespace FrontedAtMost

variable {tree after : Tree} {id : NodeId} {bound : Nat} {children : List NodeId}

/-- Edits that take old children away at most. -/
theorem thin (fronted : tree.FrontedAtMost id bound children) (keep : NodeId → Bool)
    (listed : after.children id = (tree.children id).filter keep)
    (stays : ∀ {id}, bound ≤ id → keep id = true)
    (tags : ∀ {id}, id < tree.size → after.tag? id = tree.tag? id) :
    after.FrontedAtMost id bound (children.filter keep) := by
  rcases fronted with same | ⟨sizer, isNew, same, isSizer⟩
  · exact .inl (by rw [listed, same])
  · refine .inr ⟨sizer, isNew, ?_, ?_⟩
    · rw [listed, same, List.filter_cons_of_pos (stays isNew)]
    · rwa [isTagged_congr (tags (lt_size_of_isTagged isSizer))]

theorem congr (fronted : tree.FrontedAtMost id bound children)
    (listed : after.children id = tree.children id)
    (tags : ∀ {id}, id < tree.size → after.tag? id = tree.tag? id) :
    after.FrontedAtMost id bound children := by
  have thinned := fronted.thin (fun _ => true) (listed.trans (List.filter_true _).symm)
    (fun _ => rfl) tags
  rwa [List.filter_true] at thinned

end FrontedAtMost

/-- What visits of some elements leave of a first tree. -/
structure Footprint (visited : NodeId → Prop) (first tree : Tree) (style? : Option NodeId)
    (css : String) : Prop where
  start : first.Forest
  extensions : ∀ {id}, visited id → first.IsExtension id
  forest : tree.Forest
  size_le : first.size ≤ tree.size
  parent? : ∀ {id}, id < first.size → tree.parent? id = first.parent? id
  tag? : ∀ {id}, id < first.size → tree.tag? id = first.tag? id
  kind? : ∀ {id}, id < first.size → ¬ visited id → ¬ first.IsTrailingText id →
    tree.kind? id = first.kind? id
  children : ∀ {id}, id < first.size → ¬ visited id → first.head? ≠ some id →
    first.customStyle? ≠ some id → tree.children id = first.children id
  fronted : ∀ {id}, visited id → tree.FrontedAtMost id first.size (first.children id)
  fresh : ∀ {id element}, first.size ≤ id → tree.element? id = some element →
    element.Unnamed ∧ (Ascii.sameName element.tag "style" = true → style? = some id)
  sheet : Sheet first tree style? css

/-! ## What a footprint keeps -/

section Kept

variable {visited : NodeId → Prop} {first tree : Tree} {style? : Option NodeId} {css : String}
  {id : NodeId}

theorem IsExtension.not_parts (extension : first.IsExtension id) :
    first.isTagged id "style" = false ∧ first.head? ≠ some id ∧
      first.customStyle? ≠ some id := by
  obtain ⟨noStyle, noHead, -⟩ := extension.untagged rfl
  refine ⟨noStyle, fun isHead => ?_, fun isStyle => ?_⟩
  · exact ne_of_head? isHead noHead rfl
  · rw [isTagged_of_customStyle? isStyle] at noStyle
    exact absurd noStyle (by simp)

theorem Footprint.refl (forest : first.Forest) :
    Footprint (fun _ => False) first first none "" where
  start := forest
  extensions none := none.elim
  forest := forest
  size_le := Nat.le_refl _
  parent? _ := rfl
  tag? _ := rfl
  kind? _ _ _ := rfl
  children _ _ _ _ := rfl
  fronted none := none.elim
  fresh isNew found := absurd (lt_size_of_element? found) (Nat.not_lt_of_le isNew)
  sheet := .absent rfl (fun _ _ => rfl) fun style _ => .refl first style

namespace Footprint

/-- Further elements may be visited. -/
theorem mono {larger : NodeId → Prop} (footprint : Footprint visited first tree style? css)
    (more : ∀ id, visited id → larger id) (extensions : ∀ {id}, larger id → first.IsExtension id) :
    Footprint larger first tree style? css :=
  { footprint with
    extensions := extensions
    kind? := fun inside apart => footprint.kind? inside fun before => apart (more _ before)
    children := fun inside apart => footprint.children inside fun before => apart (more _ before)
    fronted := fun {id} member => by
      by_cases before : visited id
      · exact footprint.fronted before
      · obtain ⟨-, noHead, noSheet⟩ := (extensions member).not_parts
        exact .inl (footprint.children (extensions member).lt_size before noHead noSheet) }

variable (footprint : Footprint visited first tree style? css)
include footprint

/-- The text at the end of the stylesheet is still a text. -/
theorem trailing {last : NodeId} {data : String} (trails : first.IsTrailingText last)
    (before : first.text? last = some data) : ∃ more, tree.text? last = some (data ++ more) := by
  obtain ⟨style, present, isLast, -⟩ := trails
  cases (footprint.sheet.ending_of_customStyle? present).1 with
  | kept _ same => exact ⟨"", by rw [same last isLast, before, String.append_empty]⟩
  | grown otherLast earlier later =>
      rw [isLast] at otherLast
      cases otherLast
      rw [before] at earlier
      cases earlier
      exact ⟨css, later⟩
  | added noText => exact absurd ((noText last isLast).symm.trans before) (by simp)

/-- Seen from afar, the tree has grown. -/
theorem grows : first.Grows first.visitScope (fun _ => True) tree where
  forest := footprint.forest
  size_le := footprint.size_le
  parent? := footprint.parent?
  children inside apart := by
    refine footprint.children inside (fun isVisited => ?_) (fun isHead => ?_) fun isStyle => ?_
    · exact apart (.inr (.inl (footprint.extensions isVisited)))
    · exact apart (.inr (.inr (.inl isHead)))
    · exact apart (.inr (.inr (.inr (footprint.start.isCustomStyle_of_customStyle? isStyle))))
  kind? {id kind} found := by
    have inside := lt_size_of_kind? found
    by_cases isVisited : visited id
    · obtain ⟨⟨_, old⟩, isElement, -⟩ := (footprint.extensions isVisited).exists_element
      have tagged := (footprint.tag? inside).trans (congrArg (Option.map Element.tag) isElement)
      rw [element?_eq_some_iff.mp isElement] at found
      cases found
      obtain ⟨⟨_, new⟩, later, rfl⟩ := Option.map_eq_some_iff.mp tagged
      exact ⟨_, element?_eq_some_iff.mp later, .attributes _ old new⟩
    · by_cases trails : first.IsTrailingText id
      · obtain ⟨data, before⟩ := trails.text?
        obtain ⟨more, later⟩ := footprint.trailing trails before
        rw [text?_eq_some_iff.mp before] at found
        cases found
        exact ⟨_, text?_eq_some_iff.mp later, .text data more⟩
      · exact ⟨kind, (footprint.kind? inside isVisited trails).trans found, .same kind⟩
  element? {id} inside apart := by
    have notVisited : ¬ visited id := fun isVisited => apart (footprint.extensions isVisited)
    by_cases trails : first.IsTrailingText id
    · obtain ⟨data, before⟩ := trails.text?
      obtain ⟨more, later⟩ := footprint.trailing trails before
      rw [element?, element?, text?_eq_some_iff.mp before, text?_eq_some_iff.mp later]
    · exact element?_congr (footprint.kind? inside notVisited trails)
  fresh _ _ := trivial

/-- The head is the one of the first tree. -/
theorem head? {html : NodeId} (found : first.html? = some html) :
    tree.head? = first.head? := by
  have site : Site first.visitScope first html :=
    (footprint.start.site found).mono (fun _ extension => .inr extension) rfl
  exact site.head?_of_grows footprint.grows

/-- The stylesheet at hand is a style and has not been visited. -/
theorem style?_apart {style : NodeId} (known : style? = some style) :
    tree.isTagged style "style" = true ∧ first.head? ≠ some style ∧ ¬ visited style := by
  have marked : tree.isTagged style "style" = true := by
    cases footprint.sheet with
    | absent => exact absurd known (by simp)
    | found present =>
        cases known
        have custom := footprint.start.isCustomStyle_of_customStyle? present
        rw [isTagged_congr (footprint.tag? custom.lt_size)]
        exact custom.isTagged
    | created _ _ _ _ isStyle =>
        cases known
        rw [isTagged_of_element? (element?_eq_some_iff.mpr isStyle)]
        with_unfolding_all decide
  have old : ∀ {tag}, style < first.size → Ascii.lower tag ≠ Ascii.lower "style" →
      first.isTagged style tag = false := by
    intro tag inside different
    rw [← isTagged_congr (footprint.tag? inside)]
    exact isTagged_eq_false_of_isTagged marked different
  refine ⟨marked, fun isHead => ?_, fun isVisited => ?_⟩
  · have tagged := isTagged_of_head? isHead
    rw [old (lt_size_of_isTagged tagged) (by with_unfolding_all decide)] at tagged
    exact absurd tagged (by simp)
  · have extension := footprint.extensions isVisited
    rw [isTagged_congr (footprint.tag? extension.lt_size), extension.not_parts.1] at marked
    exact absurd marked (by simp)

/-- The head and the stylesheets are there and have not been visited. -/
theorem part_apart (part : first.head? = some id ∨ first.customStyle? = some id ∨
    style? = some id) : id < tree.size ∧ ¬ visited id := by
  have not_parts : visited id → first.head? ≠ some id ∧ first.customStyle? ≠ some id :=
    fun isVisited => (footprint.extensions isVisited).not_parts.2
  rcases part with isHead | isSheet | known
  · have inside := lt_size_of_isTagged (isTagged_of_head? isHead)
    exact ⟨Nat.lt_of_lt_of_le inside footprint.size_le,
      fun isVisited => (not_parts isVisited).1 isHead⟩
  · have inside := (footprint.start.isCustomStyle_of_customStyle? isSheet).lt_size
    exact ⟨Nat.lt_of_lt_of_le inside footprint.size_le,
      fun isVisited => (not_parts isVisited).2 isSheet⟩
  · obtain ⟨marked, -, notVisited⟩ := footprint.style?_apart known
    exact ⟨lt_size_of_isTagged marked, notVisited⟩

end Footprint

end Kept

/-! ## Steps -/

section Steps

variable {visited : NodeId → Prop} {first tree after : Tree} {style? : Option NodeId}
  {css more : String} {id : NodeId}

/-- A node that has a tag before and after is a text in neither tree. -/
theorem Rewritten.text? (rewritten : Rewritten tree after id)
    (isElement : (tree.tag? id).isSome = true) (other : NodeId) :
    after.text? other = tree.text? other := by
  by_cases same : other = id
  · rw [same, text?_of_tag? isElement, text?_of_tag? (by rwa [rewritten.tag?])]
  · exact text?_congr (rewritten.kind? other same)

/-- Edits that leave head and stylesheet, the texts, and a new stylesheet alone keep the
sheet. -/
theorem Sheet.congr (sheet : Sheet first tree style? css) (start : first.Forest)
    (size_le : first.size ≤ tree.size)
    (same : after.customStyle? = tree.customStyle?)
    (listed : ∀ {id}, first.head? = some id ∨ first.customStyle? = some id ∨ style? = some id →
      after.children id = tree.children id)
    (texts : ∀ {id}, id < tree.size → after.text? id = tree.text? id)
    (created : ∀ {style}, style? = some style → first.size ≤ style →
      after.kind? style = tree.kind? style) : Sheet first after style? css := by
  have ended : ∀ {style css}, after.children style = tree.children style →
      Ending first tree style (first.children style) css →
        Ending first after style (first.children style) css :=
    fun listed ending => ending.congr start size_le texts listed
  cases sheet with
  | absent sameBefore head ending =>
      refine .absent (same.trans sameBefore) (fun id isHead => ?_) fun style present => ?_
      · exact (listed (.inl isHead)).trans (head id isHead)
      · exact ended (listed (.inr (.inl present))) (ending style present)
  | found present head ending =>
      refine .found present (fun id isHead => ?_) (ended (listed (.inr (.inl present))) ending)
      exact (listed (.inl isHead)).trans (head id isHead)
  | created absent isNew headFound behind isStyle ending =>
      exact .created absent isNew headFound ((listed (.inl headFound)).trans behind)
        ((created rfl isNew).trans isStyle) (ended (listed (.inr (.inr rfl))) ending)

/-- What comes in front of the children of an extension element is in no head, and no custom
stylesheet comes with it. -/
theorem Fronts.customStyle? {sizer : NodeId} (fronts : Fronts tree after id sizer)
    (forest : tree.Forest) (extension : tree.IsExtension id)
    (fillers : ∀ {other element}, tree.size ≤ other → after.element? other = some element →
      element.IsFiller) : after.customStyle? = tree.customStyle? := by
  obtain ⟨noRoot, noHtml, -⟩ := extension.apart forest
  refine fronts.extended.customStyle? forest ?_ (fun html => ?_) fun other isNew => ?_
  · exact fronts.children (Nat.zero_lt_of_lt extension.lt_size) (Ne.symm noRoot)
  · exact fronts.children (lt_size_of_isTagged (html?_eq_some_iff.mp html).2)
      (Ne.symm (noHtml html))
  · cases found : after.element? other with
    | none => rw [isStyleMarked_eq, found, Option.any_none]
    | some element =>
        rw [isStyleMarked, isTagged_of_element? found, (fillers isNew found).1, Bool.false_and]

namespace Footprint

/-- Attributes of a visited element are written anew. -/
theorem rewritten (footprint : Footprint visited first tree style? css) (isVisited : visited id)
    (rewritten : Rewritten tree after id) : Footprint visited first after style? css := by
  have extension := footprint.extensions isVisited
  have inside := extension.lt_size
  have tagged : (tree.tag? id).isSome = true := by
    rw [footprint.tag? inside]
    exact extension.isSome_tag?
  have apart : ∀ {other}, first.size ≤ other → other ≠ id :=
    fun isNew => Nat.ne_of_gt (Nat.lt_of_lt_of_le inside isNew)
  have noStyle : tree.isTagged id "style" = false := by
    rw [isTagged_congr (footprint.tag? inside)]
    exact extension.not_parts.1
  have marked : after.isStyleMarked id customStyleMarker =
      tree.isStyleMarked id customStyleMarker := by
    rw [isStyleMarked, isStyleMarked, isTagged_congr rewritten.tag?, noStyle, Bool.false_and,
      Bool.false_and]
  refine
    { footprint with
      forest := footprint.forest.congr rewritten.toSameLinks
      size_le := Nat.le_trans footprint.size_le (rewritten.size_le tagged)
      parent? := fun old => (rewritten.parent? _).trans (footprint.parent? old)
      tag? := fun old => (rewritten.tag?_eq _).trans (footprint.tag? old)
      kind? := fun {other} old notVisited noText => ?_
      children := fun old notVisited noHead noSheet =>
        (rewritten.children _).trans (footprint.children old notVisited noHead noSheet)
      fronted := fun isVisited =>
        (footprint.fronted isVisited).congr (rewritten.children _) fun _ => rewritten.tag?_eq _
      fresh := fun {other element} isNew found => ?_
      sheet := ?_ }
  · refine (rewritten.kind? other ?_).trans (footprint.kind? old notVisited noText)
    rintro rfl
    exact notVisited isVisited
  · rw [element?_congr (rewritten.kind? other (apart isNew))] at found
    exact footprint.fresh isNew found
  · refine footprint.sheet.congr footprint.start footprint.size_le
      (rewritten.customStyle? footprint.forest marked) (fun _ => rewritten.children _)
      (fun _ => rewritten.text? tagged _) fun _ isNew => ?_
    exact rewritten.kind? _ (apart isNew)

/-- A sizer comes in front of the children of a visited element that has none yet. -/
theorem fronts (footprint : Footprint visited first tree style? css)
    (isVisited : visited id) (bare : tree.children id = first.children id) {sizer : NodeId}
    (fronts : Fronts tree after id sizer) (isSizer : after.isTagged sizer sizerTag = true)
    (fillers : ∀ {other element}, tree.size ≤ other → after.element? other = some element →
      element.IsFiller) : Footprint visited first after style? css := by
  have extension := footprint.extensions isVisited
  have size_le := footprint.size_le
  have extended := fronts.extended
  have old : ∀ {other}, other < first.size → other < tree.size :=
    fun inside => Nat.lt_of_lt_of_le inside size_le
  have apart : ∀ {other}, first.head? = some other ∨ first.customStyle? = some other ∨
      style? = some other → other < tree.size ∧ other ≠ id := by
    intro other part
    obtain ⟨inside, notVisited⟩ := footprint.part_apart part
    refine ⟨inside, ?_⟩
    rintro rfl
    exact notVisited isVisited
  refine
    { footprint with
      forest := extended.forest
      size_le := Nat.le_trans size_le extended.size_le
      parent? := fun inside => (extended.parent? (old inside)).trans (footprint.parent? inside)
      tag? := fun inside =>
        (tag?_congr (extended.kind? (old inside))).trans (footprint.tag? inside)
      kind? := fun inside notVisited noText =>
        (extended.kind? (old inside)).trans (footprint.kind? inside notVisited noText)
      children := fun {other} inside notVisited noHead noSheet => ?_
      fronted := fun {other} otherVisited => ?_
      fresh := fun {other element} isNew found => ?_
      sheet := ?_ }
  · refine (fronts.children (old inside) ?_).trans
      (footprint.children inside notVisited noHead noSheet)
    rintro rfl
    exact notVisited isVisited
  · by_cases same : other = id
    · rw [same]
      exact .inr ⟨sizer, Nat.le_trans size_le fronts.isNew, by rw [fronts.listed, bare], isSizer⟩
    · have inside := old (footprint.extensions otherVisited).lt_size
      exact (footprint.fronted otherVisited).congr (fronts.children inside same)
        fun old => tag?_congr (extended.kind? old)
  · by_cases inside : other < tree.size
    · rw [element?_congr (extended.kind? inside)] at found
      exact footprint.fresh isNew found
    · obtain ⟨noStyle, unnamed⟩ := fillers (Nat.le_of_not_lt inside) found
      exact ⟨unnamed, fun isStyle => absurd (noStyle.symm.trans isStyle) (by simp)⟩
  · refine footprint.sheet.congr footprint.start footprint.size_le ?_ (fun part => ?_)
      (fun inside => ?_) fun known _ => extended.kind? (apart (.inr (.inr known))).1
    · exact fronts.customStyle? footprint.forest (footprint.grows.isExtension extension) fillers
    · exact fronts.children (apart part).1 (apart part).2
    · exact text?_congr (extended.kind? inside)

/-- Rules come to the end of the stylesheet at hand. -/
theorem textAdded {style : NodeId} (footprint : Footprint visited first tree (some style) css)
    (added : TextAdded tree after style more) :
    Footprint visited first after (some style) (css ++ more) := by
  have size_le := footprint.size_le
  have old : ∀ {other}, other < first.size → other < tree.size :=
    fun inside => Nat.lt_of_lt_of_le inside size_le
  obtain ⟨marked, noHead, notVisited⟩ := footprint.style?_apart rfl
  have headSame : ∀ {head}, first.head? = some head → after.children head = tree.children head := by
    intro head isHead
    refine added.children_of_ne ?_
    rintro rfl
    exact noHead isHead
  have apart : ∀ {other}, other < first.size → first.customStyle? ≠ some other →
      other ≠ style := by
    rintro other inside noSheet rfl
    cases footprint.sheet with
    | found present => exact noSheet present
    | created _ isNew => exact Nat.not_lt_of_le isNew inside
  refine
    { footprint with
      forest := added.forest footprint.forest
      size_le := Nat.le_trans size_le added.size_le
      parent? := fun inside => (added.parent?_old (old inside)).trans (footprint.parent? inside)
      tag? := fun inside => (added.tag?_eq _).trans (footprint.tag? inside)
      kind? := fun {other} inside notVisited noText => ?_
      children := fun inside notVisited noHead noSheet =>
        (added.children_of_ne (apart inside noSheet)).trans
          (footprint.children inside notVisited noHead noSheet)
      fronted := fun {other} isVisited => ?_
      fresh := fun {other element} isNew found => ?_
      sheet := ?_ }
  · refine (added.kind?_old (old inside) fun isLast => ?_).trans
      (footprint.kind? inside notVisited noText)
    cases isText : tree.text? other with
    | none => rfl
    | some data =>
        rcases footprint.sheet.origin_of_lastChild? rfl isLast isText with isNew | trails
        · exact absurd inside (Nat.not_lt_of_le isNew)
        · exact absurd trails noText
  · have different : other ≠ style := by
      rintro rfl
      exact notVisited isVisited
    exact (footprint.fronted isVisited).congr (added.children_of_ne different)
      fun _ => added.tag?_eq _
  · rw [added.element?_eq] at found
    exact footprint.fresh isNew found
  · cases footprint.sheet with
    | found present head ending =>
        exact .found present (fun id isHead => (headSame isHead).trans (head id isHead))
          (ending.textAdded size_le added)
    | created absent isNew headFound listed isStyle ending =>
        refine .created absent isNew headFound ((headSame headFound).trans listed) ?_
          (ending.textAdded size_le added)
        refine (added.kind?_old (lt_size_of_isTagged marked) fun _ => ?_).trans isStyle
        rw [Tree.text?, isStyle]
        rfl

/-- A stylesheet comes to the end of a head without any. -/
theorem created {html head : NodeId} (footprint : Footprint visited first tree none css)
    (found : first.html? = some html)
    (absent : tree.customStyle? = none) (headFound : tree.head? = some head)
    (inserted : Inserted tree after head Budget.styleKind) :
    Footprint visited first after (some tree.size) css := by
  have size_le := footprint.size_le
  have old : ∀ {other}, other < first.size → other < tree.size :=
    fun inside => Nat.lt_of_lt_of_le inside size_le
  have isHead : first.head? = some head := (footprint.head? found).symm.trans headFound
  have kept : ∀ {other}, other ≠ head → after.children other = tree.children other := by
    intro other different
    rw [inserted.children, if_neg different]
  refine
    { footprint with
      forest := inserted.forest
      size_le := ?_
      parent? := fun {other} inside => ?_
      tag? := fun inside =>
        (tag?_congr (inserted.kind?_old (old inside))).trans (footprint.tag? inside)
      kind? := fun inside notVisited noText =>
        (inserted.kind?_old (old inside)).trans (footprint.kind? inside notVisited noText)
      children := fun {other} inside notVisited noHead noSheet => ?_
      fronted := fun {other} isVisited => ?_
      fresh := fun {other element} isNew found => ?_
      sheet := ?_ }
  · rw [inserted.size]
    exact Nat.le_succ_of_le size_le
  · rw [inserted.parent?, if_neg (Nat.ne_of_lt (old inside))]
    exact footprint.parent? inside
  · refine (kept ?_).trans (footprint.children inside notVisited noHead noSheet)
    rintro rfl
    exact noHead isHead
  · have different : other ≠ head := by
      rintro rfl
      exact (footprint.extensions isVisited).not_parts.2.1 isHead
    exact (footprint.fronted isVisited).congr (kept different)
      fun old => tag?_congr (inserted.kind?_old old)
  · by_cases same : other = tree.size
    · rw [same, element?_eq_some_iff.mpr inserted.kind?_new] at found
      cases found
      exact ⟨Element.unnamed_ofPairs (by with_unfolding_all decide) "style",
        fun _ => congrArg some same.symm⟩
    · have sameKind : after.kind? other = tree.kind? other := by rw [inserted.kind?, if_neg same]
      rw [element?_congr sameKind] at found
      obtain ⟨unnamed, known⟩ := footprint.fresh isNew found
      exact ⟨unnamed, fun isStyle => absurd (known isStyle) (by simp)⟩
  · cases footprint.sheet with
    | absent same head =>
        refine .created (same.symm.trans absent) size_le isHead ?_ inserted.kind?_new (.kept ?_ ?_)
        · rw [inserted.children, if_pos rfl, head _ isHead]
        · rw [inserted.children_new, children_of_size_le size_le]
        · intro last isLast
          rw [lastChild?, children_of_size_le size_le] at isLast
          exact absurd isLast (by simp)

end Footprint

end Steps

end Tree

/-! ## Additions -/

section Additions

variable {visited : NodeId → Prop} {first tree middle : Tree} {html style : NodeId}
  {budget : Budget} {result : BudgetResult} {css more : String}

/-- Where rules are charged, the stylesheet is at hand and the footprint is the same. -/
theorem Tree.Footprint.located
    (footprint : Tree.Footprint visited first tree budget.style? css)
    (found : first.html? = some html) (located : Budget.Located budget tree style middle) :
    Tree.Footprint visited first middle (some style) css := by
  cases located with
  | known known =>
      rw [known] at footprint
      exact footprint
  | found missing present =>
      rw [missing] at footprint
      have atHand : Tree.Sheet first tree (some style) css := by
        cases footprint.sheet with
        | absent same head ending =>
            have original := same.symm.trans present
            exact .found original head (ending style original)
      refine { footprint with fresh := fun isNew element => ?_, sheet := atHand }
      obtain ⟨unnamed, known⟩ := footprint.fresh isNew element
      exact ⟨unnamed, fun isStyle => absurd (known isStyle) (by simp)⟩
  | created missing absent headFound =>
      rw [missing] at footprint
      obtain ⟨_, -, link⟩ := footprint.forest.exists_html_of_head? headFound
      exact footprint.created found absent headFound
        (footprint.forest.inserted (Tree.lt_size_of_parent? link) Budget.styleKind)

/-- Rules that are added are at the end of the stylesheet; refused ones leave nothing. -/
theorem Tree.Footprint.add
    (footprint : Tree.Footprint visited first tree budget.style? css)
    (found : first.html? = some html) (outcome : Budget.Outcome budget tree more result) :
    Tree.Footprint visited first result.tree result.budget.style?
      (css ++ if result.refusal? = none then more else "") := by
  cases outcome with
  | exceeded _ _ _ _ origin =>
      rw [if_neg (by simp), String.append_empty]
      rcases origin with same | ⟨missing, present⟩
      · rw [same]
        exact footprint
      · cases known : tree.customStyle? with
        | none =>
            rw [present, known, ← missing]
            exact footprint
        | some style =>
            rw [present, known]
            exact footprint.located found (.found missing known)
  | headless =>
      rw [if_neg (by simp), String.append_empty]
      exact footprint
  | @charged style middle located =>
      rw [if_pos rfl]
      have atHand := footprint.located found located
      have inside := Tree.lt_size_of_isTagged (atHand.style?_apart rfl).1
      exact atHand.textAdded (atHand.forest.textAdded inside more)

/-- Moving the blocking attributes of a visited element adds its accepted rules. -/
theorem Tree.Footprint.moved {id : NodeId}
    (footprint : Tree.Footprint visited first tree budget.style? css)
    (found : first.html? = some html) (isVisited : visited id) :
    Tree.Footprint visited first (moveToStylesheet budget tree id).tree
      (moveToStylesheet budget tree id).budget.style?
      (css ++ (acceptedRules? budget tree id).getD "") := by
  have outcome := moveToStylesheet_outcome budget tree id
  have named := footprint.rewritten isVisited (.ensureId tree id)
  generalize moveToStylesheet budget tree id = result at outcome
  generalize acceptedRules? budget tree id = rules? at outcome
  cases outcome with
  | unread =>
      rw [Option.getD_none, String.append_empty]
      exact footprint
  | bare =>
      rw [Option.getD_none, String.append_empty]
      exact footprint.rewritten isVisited (.eraseFound tree id _)
  | @refused _ styles _ _ _ _ refusal =>
      have outcome := Budget.add_outcome budget (tree.ensureId id).2
        (rulesFor styles (tree.ensureId id).1)
      have added := named.add found outcome
      rw [outcome.tree_of_refused (by rw [refusal]; rfl), refusal, if_neg (by simp)] at added
      rw [Option.getD_none]
      dsimp only
      split
      next => exact added
      next => exact added.rewritten isVisited ((Tree.Rewritten.refl _ id).eraseAttribute "id")
  | @accepted _ styles _ _ _ allowed =>
      have added := named.add found (Budget.add_outcome budget (tree.ensureId id).2
        (rulesFor styles (tree.ensureId id).1))
      rw [if_pos allowed] at added
      rw [Option.getD_some]
      exact added.rewritten isVisited (.eraseFound _ id styles)

/-- A box is applied to a visited element that has no sizer yet. -/
theorem Tree.Footprint.applied {id : NodeId} {style? : Option NodeId}
    (footprint : Tree.Footprint visited first tree style? css)
    (isVisited : visited id) (bare : tree.children id = first.children id) (box : LayoutBox) :
    Tree.Footprint visited first (box.applyTo tree id) style? css := by
  have inside := Nat.lt_of_lt_of_le (footprint.extensions isVisited).lt_size footprint.size_le
  have rewritten := Tree.Rewritten.writeAttributes tree id box
  have written := footprint.rewritten isVisited rewritten
  have applied := LayoutBox.applied footprint.forest inside box
  generalize box.applyTo tree id = after at applied
  cases applied with
  | silent => exact footprint
  | written => exact written
  | sized fronts isSizer fillers =>
      exact written.fronts isVisited ((rewritten.children id).trans bare) fronts isSizer
        fillers

end Additions

/-! ## Visits -/

/-- The node is an extension element of the document outside of templates. -/
def Tree.IsTreated (tree : Tree) (id : NodeId) : Prop :=
  tree.IsExtension id ∧ tree.isInside id "template" = false

namespace Rendering

/-- The text of some rules, one after another. -/
def rulesText (rules : List (NodeId × String)) : String := String.join (rules.map (·.2))

theorem rulesText_append (earlier later : List (NodeId × String)) :
    rulesText (earlier ++ later) = rulesText earlier ++ rulesText later := by
  rw [rulesText, List.map_append, String.join_append]
  rfl

theorem rulesText_singleton (id : NodeId) (rules? : Option String) :
    rulesText (rules?.map (id, ·)).toList = rules?.getD "" := by
  cases rules? with
  | none => rfl
  | some css => simp [rulesText]

section Visits

variable {scope : Scope} {visited : NodeId → Prop} {first : Tree} {state : Rendering}
  {html id : NodeId} {css : String}

/-- Treating an element that has been left alone so far. -/
theorem Treated.footprint {budget : Budget} {tree after : Tree}
    (treated : Treated budget tree id after)
    (footprint : Tree.Footprint visited first tree budget.style? css)
    (found : first.html? = some html) (isVisited : visited id)
    (bare : tree.children id = first.children id) (site : tree.Site scope html)
    (settled : budget.Settled tree) (written : scope.written id) :
    Tree.Footprint visited first after (moveToStylesheet budget tree id).budget.style?
      (css ++ (acceptedRules? budget tree id).getD "") := by
  have moved := footprint.moved found isVisited
  have extension := footprint.extensions isVisited
  obtain ⟨noStyle, noHead, -⟩ := extension.untagged (footprint.tag? extension.lt_size)
  have listed := (children_moveToStylesheet site settled written noStyle noHead).trans bare
  cases treated with
  | moved => exact moved
  | @boxed box => exact moved.applied isVisited listed box

/-- One visit of an element that has been left alone so far. -/
theorem visit_footprint
    (footprint : Tree.Footprint visited first state.tree state.budget.style? css)
    (found : first.html? = some html) (extension : first.IsExtension id)
    (new : ¬ visited id) (site : state.tree.Site scope html)
    (settled : state.budget.Settled state.tree) (written : scope.written id) :
    Tree.Footprint (fun other => visited other ∨ other = id ∧ first.isInside id "template" = false)
      first (state.visit id).tree (state.visit id).budget.style?
      (css ++ ((state.visitRules? id).getD "")) := by
  have larger : Tree.Footprint
      (fun other => visited other ∨ other = id ∧ first.isInside id "template" = false) first
      state.tree state.budget.style? css := by
    refine footprint.mono (fun _ before => .inl before) ?_
    rintro other (before | ⟨rfl, -⟩)
    · exact footprint.extensions before
    · exact extension
  have inside := footprint.grows.isInside footprint.start extension.lt_size "template"
  obtain ⟨-, noHead, noSheet⟩ := extension.not_parts
  have bare := footprint.children extension.lt_size new noHead noSheet
  have seen := visit_visited state id
  generalize state.visitRules? id = rules? at seen ⊢
  generalize (state.visit id).budget = budget at seen ⊢
  generalize (state.visit id).tree = after at seen ⊢
  cases seen with
  | skipped =>
      rw [Option.getD_none, String.append_empty]
      exact larger
  | treated outside treated =>
      exact treated.footprint larger found (.inr ⟨rfl, inside.symm.trans outside⟩) bare site
        settled written

/-- **The footprint of visits one after another.** -/
theorem visits_footprint {ids : List NodeId} (distinct : ids.Nodup)
    (footprint : Tree.Footprint visited first state.tree state.budget.style? css)
    (found : first.html? = some html)
    (extensions : ∀ id ∈ ids, first.IsExtension id) (new : ∀ id ∈ ids, ¬ visited id)
    (site : state.tree.Site scope html) (settled : state.budget.Settled state.tree)
    (reached : ∀ id ∈ ids, scope.written id ∧ scope.given id) :
    Tree.Footprint
      (fun other => visited other ∨ other ∈ ids ∧ first.isInside other "template" = false) first
      (ids.foldl visit state).tree (ids.foldl visit state).budget.style?
      (css ++ rulesText (state.acceptedRules ids)) := by
  induction ids generalizing state visited css with
  | nil =>
      rw [acceptedRules, rulesText, List.map_nil, String.join_nil, String.append_empty]
      exact footprint.mono (fun _ before => .inl before) fun member =>
        footprint.extensions (member.resolve_right (by simp))
  | cons id rest ih =>
      obtain ⟨apart, others⟩ := List.nodup_cons.mp distinct
      rw [List.forall_mem_cons] at extensions new reached
      obtain ⟨⟨written, receives⟩, reachedLater⟩ := reached
      have lands := visit_lands site settled written receives
      have visited := visit_footprint footprint found extensions.1 new.1 site settled written
      have later := ih others visited extensions.2 ?_ (site.grown lands.grows) lands.settled
        reachedLater
      · rw [String.append_assoc, ← rulesText_singleton id, ← rulesText_append] at later
        refine later.mono ?_ ?_
        · rintro other ((before | ⟨rfl, outside⟩) | ⟨member, outside⟩)
          · exact .inl before
          · exact .inr ⟨List.mem_cons_self, outside⟩
          · exact .inr ⟨List.mem_cons_of_mem id member, outside⟩
        · rintro other (before | ⟨member, -⟩)
          · exact footprint.extensions before
          · exact (List.forall_mem_cons (p := first.IsExtension)).mpr extensions other member
      · rintro other member (before | ⟨rfl, -⟩)
        · exact new.2 other member before
        · exact apart member

end Visits

end Rendering

end FirstPaint
