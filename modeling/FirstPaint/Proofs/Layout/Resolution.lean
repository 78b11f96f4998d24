import FirstPaint.Proofs.Layout.Declarations
import FirstPaint.Proofs.Layout.LengthGrammar
import FirstPaint.Proofs.Text.LetterCase

/-!
# Which box an element gets

The box of an element follows from four of its attributes and its tag. A width that stands for
no length is reported first, then a height, then the layout fluid. Otherwise there is a box: its
sizes are those that are given, or built-in ones (`LayoutBox.BuiltIn`) where the layout admits
them (`LayoutBox.Effective`), and its layout is the one asked for or the one that suits the sizes
(`LayoutBox.Chosen`). `LayoutBox.ofElement_resolution` puts the rules together.

The rules speak of the text of the attributes and of the tag only. They meet the reader of names
in `Layout.ofName?_eq_some_iff`: no two layouts have names that differ only in the case of letters,
so the first layout that fits a name is the only one. The extensions with a size of their own are
listed in the rules, and `LayoutBox.builtInSize?_eq_some_iff` says that no others are looked up.
-/

set_option autoImplicit false

namespace FirstPaint

/-! ## The layout asked for -/

theorem Layout.ofName?_eq_some_iff {name : String} {layout : Layout} :
    ofName? name = some layout ↔ Ascii.Respells layout.name name := by
  rw [← Ascii.sameName_iff]
  constructor
  · intro found
    have fits := List.find?_some found
    exact fits
  · intro same
    have lowered : Ascii.lower name = Ascii.lower layout.name := (beq_iff_eq.mp same).symm
    unfold ofName? Ascii.sameName
    rw [lowered]
    cases layout <;> with_unfolding_all decide

namespace Tree

variable {tree : Tree} {id : NodeId} {layout : Layout}

/-- The layout attribute of the element is the name of the layout, in any case of letters. -/
def Asks (tree : Tree) (id : NodeId) (layout : Layout) : Prop :=
  ∃ name, tree.attribute? id "layout" = some name ∧ Ascii.Respells layout.name name

/-- The layout attribute of the element is missing or is no name of a layout. -/
def AsksForNone (tree : Tree) (id : NodeId) : Prop := ∀ layout, ¬ tree.Asks id layout

theorem asks_iff :
    tree.Asks id layout ↔ (tree.attribute? id "layout").bind Layout.ofName? = some layout := by
  simp only [Asks, Option.bind_eq_some_iff, Layout.ofName?_eq_some_iff]

theorem asksForNone_iff :
    tree.AsksForNone id ↔ (tree.attribute? id "layout").bind Layout.ofName? = none := by
  simp only [AsksForNone, asks_iff, Option.eq_none_iff_forall_ne_some, ne_eq]

end Tree

namespace LayoutBox

/-! ## Sizes and layouts of boxes -/

/-- Width and height of the extensions that have a size of their own. -/
inductive BuiltIn : String → Length → Length → Prop where
  | analytics : BuiltIn "amp-analytics" (.measure (.ofNat 1) .px) (.measure (.ofNat 1) .px)
  | pixel : BuiltIn "amp-pixel" (.measure (.ofNat 1) .px) (.measure (.ofNat 1) .px)
  | audio : BuiltIn "amp-audio" .auto .auto
  | socialShare :
      BuiltIn "amp-social-share" (.measure (.ofNat 60) .px) (.measure (.ofNat 44) .px)

/-- The element has the built-in width. -/
def HasBuiltInWidth (tree : Tree) (id : NodeId) (width : Length) : Prop :=
  ∃ tag height, tree.tag? id = some tag ∧ BuiltIn tag width height

/-- The element has the built-in height. -/
def HasBuiltInHeight (tree : Tree) (id : NodeId) (height : Length) : Prop :=
  ∃ tag width, tree.tag? id = some tag ∧ BuiltIn tag width height

/-- The size that counts is the given one, or the built-in one where that is admitted. -/
inductive Effective (admitted : Prop) (HasBuiltIn : Length → Prop) : Length → Length → Prop where
  | given {length : Length} (defined : length ≠ .undefined) :
      Effective admitted HasBuiltIn length length
  | builtIn {length : Length} (isAdmitted : admitted) (has : HasBuiltIn length) :
      Effective admitted HasBuiltIn .undefined length
  | missing (without : ¬ admitted ∨ ∀ length, ¬ HasBuiltIn length) :
      Effective admitted HasBuiltIn .undefined .undefined

/-- The layout of a box with the given sizes. -/
inductive Chosen (tree : Tree) (id : NodeId) (hasConditionalSizes : Bool) (width height : Length) :
    Layout → Prop where
  | asked {layout : Layout} (asks : tree.Asks id layout) :
      Chosen tree id hasConditionalSizes width height layout
  | container (unset : tree.AsksForNone id) (noWidth : width = .undefined)
      (noHeight : height = .undefined) :
      Chosen tree id hasConditionalSizes width height .container
  | fixedHeight (unset : tree.AsksForNone id) (noWidth : width = .undefined ∨ width = .auto)
      (hasHeight : height ≠ .undefined) :
      Chosen tree id hasConditionalSizes width height .fixedHeight
  | responsive (unset : tree.AsksForNone id) (hasWidth : width ≠ .undefined ∧ width ≠ .auto)
      (hasHeight : height ≠ .undefined) (conditional : hasConditionalSizes = true) :
      Chosen tree id hasConditionalSizes width height .responsive
  | fixed (unset : tree.AsksForNone id) (hasWidth : width ≠ .undefined)
      (otherwise : height = .undefined ∨ width ≠ .auto ∧ hasConditionalSizes = false) :
      Chosen tree id hasConditionalSizes width height .fixed

/-- The sizes and the layout of a box follow from the given sizes. -/
structure Follows (tree : Tree) (id : NodeId) (hasConditionalSizes : Bool) (width height : Length)
    (box : LayoutBox) : Prop where
  width : Effective (tree.AsksForNone id ∨ tree.Asks id .fixed) (HasBuiltInWidth tree id)
    width box.width
  height : Effective (tree.AsksForNone id ∨ tree.Asks id .fixed ∨ tree.Asks id .fixedHeight)
    (HasBuiltInHeight tree id) height box.height
  layout : Chosen tree id hasConditionalSizes box.width box.height box.layout

section Rules

variable {tree : Tree} {id : NodeId} {hasConditionalSizes : Bool} {width height : Length}
  {layout : Layout}

/-- The table of built-in sizes is the one that is looked up. -/
theorem builtInSize?_eq_some_iff {tag : String} :
    builtInSize? tag = some (width, height) ↔ BuiltIn tag width height := by
  constructor
  · intro known
    unfold builtInSize? audioTag at known
    split_ifs at known with tracker audio share
    · cases known
      rcases (by simpa using tracker : tag = "amp-analytics" ∨ tag = "amp-pixel") with rfl | rfl
      · exact .analytics
      · exact .pixel
    · cases known
      exact audio ▸ .audio
    · cases known
      exact share ▸ .socialShare
  · rintro (_ | _ | _ | _) <;> simp [builtInSize?, audioTag, Length.px]

theorem hasBuiltInWidth_iff : HasBuiltInWidth tree id width ↔
    (builtInSize? ((tree.tag? id).getD "")).map (·.1) = some width := by
  simp only [HasBuiltInWidth, ← builtInSize?_eq_some_iff]
  cases tree.tag? id with
  | none => simp [builtInSize?, audioTag]
  | some tag => simp

theorem hasBuiltInHeight_iff : HasBuiltInHeight tree id height ↔
    (builtInSize? ((tree.tag? id).getD "")).map (·.2) = some height := by
  simp only [HasBuiltInHeight, ← builtInSize?_eq_some_iff]
  cases tree.tag? id with
  | none => simp [builtInSize?, audioTag]
  | some tag => simp

theorem effective_iff {admitted : Bool} {builtIn? : Option Length} {HasBuiltIn : Length → Prop}
    {given length : Length} (table : ∀ {length}, HasBuiltIn length ↔ builtIn? = some length) :
    length = effective given builtIn? admitted ↔
      Effective (admitted = true) HasBuiltIn given length := by
  constructor
  · rintro rfl
    unfold effective
    split
    next builtIn =>
      obtain ⟨isAdmitted, undefined⟩ : admitted = true ∧ given = .undefined := by
        simpa [Length.isDefined] using builtIn
      subst undefined
      cases has : builtIn? with
      | none => exact .missing (.inr fun length => by simp [table, has])
      | some length => exact .builtIn isAdmitted (table.mpr has)
    next other =>
      by_cases undefined : given = .undefined
      · subst undefined
        exact .missing (.inl (by simpa [Length.isDefined] using other))
      · exact .given undefined
  · rintro (defined | ⟨isAdmitted, has⟩ | without)
    · simp [effective, Length.isDefined, defined]
    · simp [effective, Length.isDefined, isAdmitted, table.mp has]
    · rcases without with notAdmitted | noBuiltIn
      · simp [effective, notAdmitted]
      · have none : builtIn? = none :=
          Option.eq_none_iff_forall_ne_some.mpr fun length => mt table.mpr (noBuiltIn length)
        simp [effective, none]

/-- The layout that suits the sizes, row by row. -/
theorem chosen_suitable (unset : tree.AsksForNone id) :
    Chosen tree id hasConditionalSizes width height
      (suitable width height hasConditionalSizes) := by
  unfold suitable Length.isDefined Length.isAuto
  split
  next neither =>
    obtain ⟨noWidth, noHeight⟩ : width = .undefined ∧ height = .undefined := by simpa using neither
    exact .container unset noWidth noHeight
  next given =>
    split
    next high =>
      obtain ⟨hasHeight, noWidth⟩ :
          height ≠ .undefined ∧ (width = .undefined ∨ width = .auto) := by simpa using high
      exact .fixedHeight unset noWidth hasHeight
    next wide =>
      split
      next both =>
        obtain ⟨⟨hasHeight, hasWidth⟩, conditional⟩ :
            (height ≠ .undefined ∧ width ≠ .undefined) ∧ hasConditionalSizes = true := by
          simpa using both
        refine .responsive unset ⟨hasWidth, fun isAuto => wide ?_⟩ hasHeight conditional
        simp [hasHeight, isAuto]
      next rest =>
        have low : width ≠ .undefined ∨ height = .undefined := by
          by_contra! high
          exact wide (by simp [high.1, high.2])
        refine .fixed unset (fun noWidth => ?_) ?_
        · obtain noHeight := low.resolve_left (not_not_intro noWidth)
          exact given (by simp [noWidth, noHeight])
        · refine or_iff_not_imp_left.mpr fun hasHeight => ?_
          have hasWidth := low.resolve_right hasHeight
          exact ⟨fun isAuto => wide (by simp [hasHeight, isAuto]),
            by simpa [hasHeight, hasWidth] using rest⟩

theorem chosen_iff : Chosen tree id hasConditionalSizes width height layout ↔
    layout = ((tree.attribute? id "layout").bind Layout.ofName?).getD
      (suitable width height hasConditionalSizes) := by
  have without : ∀ {other : Layout}, tree.AsksForNone id →
      suitable width height hasConditionalSizes = other →
      other = ((tree.attribute? id "layout").bind Layout.ofName?).getD
        (suitable width height hasConditionalSizes) := by
    intro other unset suits
    rw [Tree.asksForNone_iff.mp unset, Option.getD_none, suits]
  constructor
  · intro chosen
    cases chosen with
    | asked asks => rw [Tree.asks_iff.mp asks, Option.getD_some]
    | container unset noWidth noHeight =>
        exact without unset (by simp [suitable, noWidth, noHeight, Length.isDefined])
    | fixedHeight unset noWidth hasHeight =>
        refine without unset ?_
        rcases noWidth with noWidth | isAuto
        · simp [suitable, noWidth, hasHeight, Length.isDefined]
        · simp [suitable, isAuto, hasHeight, Length.isDefined, Length.isAuto]
    | responsive unset hasWidth hasHeight conditional =>
        exact without unset (by
          simp [suitable, hasWidth, hasHeight, conditional, Length.isDefined, Length.isAuto])
    | fixed unset hasWidth otherwise =>
        refine without unset ?_
        rcases otherwise with noHeight | ⟨notAuto, unconditional⟩
        · simp [suitable, hasWidth, noHeight, Length.isDefined]
        · simp [suitable, hasWidth, notAuto, unconditional, Length.isDefined, Length.isAuto]
  · rintro rfl
    cases requested : (tree.attribute? id "layout").bind Layout.ofName? with
    | none => exact chosen_suitable (Tree.asksForNone_iff.mpr requested)
    | some layout => exact .asked (Tree.asks_iff.mpr requested)

theorem HasBuiltInWidth.unique {other : Length} (first : HasBuiltInWidth tree id width)
    (second : HasBuiltInWidth tree id other) : width = other :=
  Option.some.inj ((hasBuiltInWidth_iff.mp first).symm.trans (hasBuiltInWidth_iff.mp second))

theorem HasBuiltInHeight.unique {other : Length} (first : HasBuiltInHeight tree id height)
    (second : HasBuiltInHeight tree id other) : height = other :=
  Option.some.inj ((hasBuiltInHeight_iff.mp first).symm.trans (hasBuiltInHeight_iff.mp second))

theorem Effective.unique {admitted : Prop} {HasBuiltIn : Length → Prop}
    {given length other : Length}
    (one : ∀ {length other}, HasBuiltIn length → HasBuiltIn other → length = other)
    (first : Effective admitted HasBuiltIn given length)
    (second : Effective admitted HasBuiltIn given other) : length = other := by
  cases first with
  | given defined =>
      cases second with
      | given => rfl
      | builtIn | missing => exact absurd rfl defined
  | builtIn isAdmitted has =>
      cases second with
      | given defined => exact absurd rfl defined
      | builtIn _ hasOther => exact one has hasOther
      | missing without => exact absurd has (without.resolve_left (not_not_intro isAdmitted) _)
  | missing without =>
      cases second with
      | given => rfl
      | builtIn isAdmitted has =>
          exact absurd has (without.resolve_left (not_not_intro isAdmitted) _)
      | missing => rfl

/-- Given sizes make one box. -/
theorem Follows.unique {box other : LayoutBox}
    (first : Follows tree id hasConditionalSizes width height box)
    (second : Follows tree id hasConditionalSizes width height other) : box = other := by
  obtain ⟨layout, width, height⟩ := box
  obtain ⟨otherLayout, otherWidth, otherHeight⟩ := other
  obtain rfl : width = otherWidth := first.width.unique HasBuiltInWidth.unique second.width
  obtain rfl : height = otherHeight := first.height.unique HasBuiltInHeight.unique second.height
  obtain rfl : layout = otherLayout :=
    (chosen_iff.mp first.layout).trans (chosen_iff.mp second.layout).symm
  rfl

theorem suitable_ne_fluid : suitable width height hasConditionalSizes ≠ .fluid := by
  unfold suitable
  split_ifs <;> simp

end Rules

/-! ## All outcomes -/

/-- The width attribute stands for the length. -/
def GivesWidth (tree : Tree) (id : NodeId) : Length → Prop :=
  Length.Reading True False (tree.attribute? id "width")

/-- The height attribute stands for the length. The keyword fluid goes with the layout fluid. -/
def GivesHeight (tree : Tree) (id : NodeId) : Length → Prop :=
  Length.Reading True (tree.Asks id .fluid) (tree.attribute? id "height")

/-- The ways in which the attributes of an element can be taken, earlier ones first. -/
inductive Resolved (tree : Tree) (id : NodeId) (hasConditionalSizes : Bool) :
    Except BoxError LayoutBox → Prop where
  | badWidth {reason : LengthError}
      (refused : Length.Refusal True False (tree.attribute? id "width") reason) :
      Resolved tree id hasConditionalSizes (.error (.invalidWidth reason))
  | badHeight {width : Length} {reason : LengthError} (gives : GivesWidth tree id width)
      (refused : Length.Refusal True (tree.Asks id .fluid) (tree.attribute? id "height") reason) :
      Resolved tree id hasConditionalSizes (.error (.invalidHeight reason))
  | fluid {width height : Length} (gives : GivesWidth tree id width)
      (givesHeight : GivesHeight tree id height) (asks : tree.Asks id .fluid) :
      Resolved tree id hasConditionalSizes (.error (.unsupported .fluid))
  | box {width height : Length} {box : LayoutBox} (gives : GivesWidth tree id width)
      (givesHeight : GivesHeight tree id height) (notFluid : ¬ tree.Asks id .fluid)
      (follows : Follows tree id hasConditionalSizes width height box) :
      Resolved tree id hasConditionalSizes (.ok box)

section Outcomes

variable {tree : Tree} {id : NodeId} {hasConditionalSizes : Bool} {tag : String}
  {requested? : Option Layout} {width? height? : Option String} {width height : Length}
  {reason : LengthError}

theorem resolve_of_badWidth (refused : Length.parse width? true false = .error reason) :
    resolve tag requested? width? height? hasConditionalSizes = .error (.invalidWidth reason) := by
  simp only [resolve, refused, Except.mapError, bind, Except.bind]

theorem resolve_of_badHeight (read : Length.parse width? true false = .ok width)
    (refused : Length.parse height? true (requested? == some .fluid) = .error reason) :
    resolve tag requested? width? height? hasConditionalSizes =
      .error (.invalidHeight reason) := by
  simp only [resolve, read, refused, Except.mapError, bind, Except.bind]

/-- Only the layout fluid is refused. -/
theorem resolve_of_fluid (read : Length.parse width? true false = .ok width)
    (readHeight : Length.parse height? true true = .ok height) :
    resolve tag (some .fluid) width? height? hasConditionalSizes =
      .error (.unsupported .fluid) := by
  have allowed : Length.parse height? true (some Layout.fluid == some .fluid) = .ok height :=
    readHeight
  simp only [resolve, read, allowed, Except.mapError, bind, Except.bind, Option.getD_some]
  rfl

/-- Every other layout can be applied. -/
theorem exists_box (read : Length.parse width? true false = .ok width)
    (readHeight : Length.parse height? true (requested? == some .fluid) = .ok height)
    (notFluid : requested? ≠ some .fluid) :
    ∃ box, resolve tag requested? width? height? hasConditionalSizes = .ok box ∧
      box.width = effective width ((builtInSize? tag).map (·.1))
        (requested? == none || requested? == some .fixed) ∧
      box.height = effective height ((builtInSize? tag).map (·.2))
        (requested? == none || requested? == some .fixed || requested? == some .fixedHeight) ∧
      box.layout = requested?.getD (suitable box.width box.height hasConditionalSizes) := by
  let wide := effective width ((builtInSize? tag).map (·.1))
    (requested? == none || requested? == some .fixed)
  let high := effective height ((builtInSize? tag).map (·.2))
    (requested? == none || requested? == some .fixed || requested? == some .fixedHeight)
  refine ⟨⟨requested?.getD (suitable wide high hasConditionalSizes), wide, high⟩,
    resolve_eq_ok_iff.mpr
      ⟨width, height, read, readHeight, rfl, rfl, rfl, bne_iff_ne.mpr ?_⟩, rfl, rfl, rfl⟩
  cases requested? with
  | none => exact suitable_ne_fluid
  | some layout => exact fun same => notFluid (congrArg some same)

/-- The outcome is the one that the attributes call for. -/
theorem ofElement_resolved (tree : Tree) (id : NodeId) (hasConditionalSizes : Bool) :
    Resolved tree id hasConditionalSizes (ofElement tree id hasConditionalSizes) := by
  unfold ofElement
  cases readWidth : Length.parse (tree.attribute? id "width") true false with
  | error reason =>
      rw [resolve_of_badWidth readWidth]
      exact .badWidth (by simpa using Length.parse_eq_error_iff.mp readWidth)
  | ok width =>
      have gives : GivesWidth tree id width := by
        simpa [GivesWidth] using Length.parse_eq_ok_iff.mp readWidth
      cases readHeight : Length.parse (tree.attribute? id "height") true
          ((tree.attribute? id "layout").bind Layout.ofName? == some .fluid) with
      | error reason =>
          rw [resolve_of_badHeight readWidth readHeight]
          refine .badHeight gives ?_
          simpa only [beq_iff_eq, ← Tree.asks_iff] using Length.parse_eq_error_iff.mp readHeight
      | ok height =>
          have givesHeight : GivesHeight tree id height := by
            simpa only [GivesHeight, beq_iff_eq, ← Tree.asks_iff] using
              Length.parse_eq_ok_iff.mp readHeight
          by_cases asks : tree.Asks id .fluid
          · have requested := Tree.asks_iff.mp asks
            rw [requested] at readHeight ⊢
            rw [resolve_of_fluid readWidth readHeight]
            exact .fluid gives givesHeight asks
          · have notFluid := asks ∘ Tree.asks_iff.mpr
            obtain ⟨box, computed, hasWidth, hasHeight, hasLayout⟩ :=
              exists_box readWidth readHeight notFluid
            rw [computed]
            refine .box gives givesHeight asks ⟨?_, ?_, chosen_iff.mpr hasLayout⟩
            · simpa only [Bool.or_eq_true, beq_iff_eq, ← Tree.asks_iff, ← Tree.asksForNone_iff]
                using (effective_iff hasBuiltInWidth_iff).mp hasWidth
            · simpa only [Bool.or_eq_true, beq_iff_eq, ← Tree.asks_iff, ← Tree.asksForNone_iff,
                or_assoc] using (effective_iff hasBuiltInHeight_iff).mp hasHeight

end Outcomes

/-- What an element gets: a refusal of its width, or else of its height, or else of its layout, or
else a box whose sizes and layout follow the rules. -/
structure Resolution (tree : Tree) (id : NodeId) (hasConditionalSizes : Bool)
    (result : Except BoxError LayoutBox) : Prop where
  invalidWidth : (∃ reason, result = .error (.invalidWidth reason)) ↔
    ¬ ∃ width, GivesWidth tree id width
  invalidHeight : (∃ reason, result = .error (.invalidHeight reason)) ↔
    (∃ width, GivesWidth tree id width) ∧ ¬ ∃ height, GivesHeight tree id height
  unsupported : ∀ layout, result = .error (.unsupported layout) ↔ layout = .fluid ∧
    tree.Asks id .fluid ∧ (∃ width, GivesWidth tree id width) ∧ ∃ height, GivesHeight tree id height
  succeeds : (∃ box, result = .ok box) ↔ ¬ tree.Asks id .fluid ∧
    (∃ width, GivesWidth tree id width) ∧ ∃ height, GivesHeight tree id height
  box : ∀ box, result = .ok box ↔ ¬ tree.Asks id .fluid ∧ ∃ width height,
    GivesWidth tree id width ∧ GivesHeight tree id height ∧
      Follows tree id hasConditionalSizes width height box
  widthReason : ∀ reason, result = .error (.invalidWidth reason) →
    Length.Refusal True False (tree.attribute? id "width") reason
  heightReason : ∀ reason, result = .error (.invalidHeight reason) →
    Length.Refusal True (tree.Asks id .fluid) (tree.attribute? id "height") reason

/-- **The box follows the rules.** -/
theorem ofElement_resolution (tree : Tree) (id : NodeId) (hasConditionalSizes : Bool) :
    Resolution tree id hasConditionalSizes (ofElement tree id hasConditionalSizes) := by
  have resolved := ofElement_resolved tree id hasConditionalSizes
  generalize ofElement tree id hasConditionalSizes = result at resolved
  cases resolved with
  | badWidth refused =>
      have noWidth : ¬ ∃ width, GivesWidth tree id width :=
        fun ⟨width, gives⟩ => refused.not_reading gives
      constructor <;> simp_all
  | badHeight gives refused =>
      have hasWidth : ∃ width, GivesWidth tree id width := ⟨_, gives⟩
      have noHeight : ¬ ∃ height, GivesHeight tree id height :=
        fun ⟨height, gives⟩ => refused.not_reading gives
      constructor <;> simp_all
  | fluid gives givesHeight asks =>
      have hasWidth : ∃ width, GivesWidth tree id width := ⟨_, gives⟩
      have hasHeight : ∃ height, GivesHeight tree id height := ⟨_, givesHeight⟩
      constructor <;> simp [hasWidth, hasHeight, asks, eq_comm]
  | @box width height box gives givesHeight notFluid follows =>
      have hasWidth : ∃ width, GivesWidth tree id width := ⟨width, gives⟩
      have hasHeight : ∃ height, GivesHeight tree id height := ⟨height, givesHeight⟩
      refine ⟨by simp [hasWidth], by simp [hasHeight], by simp [notFluid],
        by simp [hasWidth, hasHeight, notFluid], fun other => ?_, by simp, by simp⟩
      rw [Except.ok.injEq]
      constructor
      · rintro rfl
        exact ⟨notFluid, width, height, gives, givesHeight, follows⟩
      · rintro ⟨-, otherWidth, otherHeight, givesOther, givesOtherHeight, followsOther⟩
        cases gives.unique givesOther
        cases givesHeight.unique givesOtherHeight
        exact follows.unique followsOther

end LayoutBox

/-- Extensions that give no size. All but the image have a built-in one. -/
def Tree.unsizedTree : Tree :=
  Tree.built [.createElement "amp-analytics" [], .createElement "amp-pixel" [],
    .createElement "amp-audio" [], .createElement "amp-social-share" [],
    .createElement "amp-img" [], .createElement "amp-social-share" [("layout", "fixed-height")],
    .createElement "amp-social-share" [("layout", "fill")]]

/-- The built-in sizes as they are written. A fixed height takes the height alone, other layouts
that are asked for take neither. -/
theorem LayoutBox.ofElement_resolution_unsizedTree :
    let sizes (id : NodeId) := (ofElement Tree.unsizedTree id false).map fun box =>
      (box.layout, box.width.css, box.height.css)
    [1, 2, 3, 4, 5, 6, 7].map sizes =
      [.ok (.fixed, "1px", "1px"), .ok (.fixed, "1px", "1px"), .ok (.fixedHeight, "auto", "auto"),
        .ok (.fixed, "60px", "44px"), .ok (.container, "", ""), .ok (.fixedHeight, "", "44px"),
        .ok (.fill, "", "")] ∧
    ∀ id ∈ [1, 2, 3, 4, 5, 6, 7], ∃ box, ofElement Tree.unsizedTree id false = .ok box ∧
      Follows Tree.unsizedTree id false .undefined .undefined box := by
  intro sizes
  refine ⟨by decide +kernel, fun id member => ?_⟩
  have noSizes : ∀ id ∈ [1, 2, 3, 4, 5, 6, 7],
      Tree.unsizedTree.attribute? id "width" = none ∧
        Tree.unsizedTree.attribute? id "height" = none ∧
          (ofElement Tree.unsizedTree id false).toOption.isSome = true := by decide +kernel
  obtain ⟨noWidth, noHeight, renders⟩ := noSizes id member
  cases computed : ofElement Tree.unsizedTree id false with
  | error => exact absurd renders (by simp [computed, Except.toOption])
  | ok box =>
      obtain ⟨-, width, height, gives, givesHeight, follows⟩ :=
        ((ofElement_resolution Tree.unsizedTree id false).box box).mp computed
      rw [GivesWidth, noWidth] at gives
      rw [GivesHeight, noHeight] at givesHeight
      obtain rfl := gives.unique .absent
      obtain rfl := givesHeight.unique .absent
      exact ⟨box, rfl, follows⟩

end FirstPaint
