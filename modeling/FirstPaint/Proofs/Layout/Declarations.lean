import FirstPaint.Proofs.Document.Calls
import FirstPaint.Proofs.Layout.Numerals
import FirstPaint.Proofs.Layout.Writing
import FirstPaint.Proofs.Markup.Delimiters

/-!
# Which sizes are written

A layout puts declarations in front of the style of its element: width and height where it is
fixed, the height where only that is fixed, and the sizes that are given where the element is
an item of a row (`LayoutBox.sizes`). Each length is written the way it is read, and none of
them is the keyword fluid, since a layout that admits it is not applied at all.

That does not make every value valid. The first two kinds of layout write a length that is not
given as well, with nothing behind the colon, and a numeral beyond all magnitudes is written as
no numeral. These are the only exceptions (`applied_sizes`).
-/

set_option autoImplicit false

namespace FirstPaint

/-! ## Declarations that are valid -/

/-- Declarations of width and height, each with a value that may be written. -/
inductive SizeDeclarations : List Char → Prop where
  | nil : SizeDeclarations []
  | cons {property : String} {value rest : List Char}
      (known : property = "width" ∨ property = "height") (valid : IsSizeValue value)
      (others : SizeDeclarations rest) :
      SizeDeclarations (property.toList ++ ':' :: (value ++ ';' :: rest))

section Valid

variable {property : String} {value rest : List Char}

theorem colon_not_mem (known : property = "width" ∨ property = "height") :
    ':' ∉ property.toList := by
  rcases known with rfl | rfl <;> decide

theorem IsNumeral.semicolon_not_mem (isNumeral : IsNumeral value) : ';' ∉ value := by
  have noDigit : ∀ {digits : List Char}, IsDigits digits → ';' ∉ digits :=
    fun isDigits member => absurd (isDigits.2 ';' member) (by decide)
  cases isNumeral with
  | whole isDigits => exact noDigit isDigits
  | point isDigits hasFraction => simp [noDigit isDigits, noDigit hasFraction]

theorem MeasureUnit.semicolon_not_mem (unit : MeasureUnit) : ';' ∉ unit.name.toList := by
  cases unit <;> decide

theorem IsSizeValue.semicolon_not_mem (valid : IsSizeValue value) : ';' ∉ value := by
  rcases valid with rfl | ⟨isNumeral, unit⟩
  · decide
  · rw [List.mem_append, not_or]
    exact ⟨isNumeral.semicolon_not_mem, unit.semicolon_not_mem⟩

theorem Length.semicolon_not_mem_css (length : Length) : ';' ∉ length.css.toList := by
  cases length with
  | undefined => decide
  | auto => decide
  | fluid => decide
  | measure numeral unit =>
      rw [css, String.toList_append, String.toList_ofList, List.mem_append, not_or]
      refine ⟨?_, unit.semicolon_not_mem⟩
      cases numeral with
      | finite significand scale =>
          exact (Decimal.isNumeral_shortest significand scale).semicolon_not_mem
      | infinite => decide

/-- A declaration can be read in one way only. -/
theorem SizeDeclarations.of_append (known : property = "width" ∨ property = "height")
    (free : ';' ∉ value)
    (declared : SizeDeclarations (property.toList ++ ':' :: (value ++ ';' :: rest))) :
    IsSizeValue value ∧ SizeDeclarations rest := by
  generalize same : property.toList ++ ':' :: (value ++ ';' :: rest) = text at declared
  cases declared with
  | nil => exact absurd same (by simp)
  | cons otherKnown valid others =>
      obtain ⟨-, values⟩ := marked_append_inj (colon_not_mem known) (colon_not_mem otherKnown) same
      obtain ⟨rfl, rfl⟩ := marked_append_inj free valid.semicolon_not_mem values
      exact ⟨valid, others⟩

end Valid

namespace LayoutBox

/-- The sizes that a box declares. -/
def sizes (box : LayoutBox) : List (String × Length) :=
  match box.layout with
  | .fixed => [("width", box.width), ("height", box.height)]
  | .fixedHeight => [("height", box.height)]
  | .flexItem => [("width", box.width), ("height", box.height)].filter (·.2.isDefined)
  | .nodisplay | .responsive | .container | .fill | .intrinsic | .fluid => []

/-- The text of some declarations. -/
def declared (sizes : List (String × Length)) : List Char :=
  sizes.flatMap fun size => (declaration size.1 size.2).toList

theorem declared_append (sizes others : List (String × Length)) :
    declared (sizes ++ others) = declared sizes ++ declared others :=
  List.flatMap_append

theorem declared_cons (size : String × Length) (rest : List (String × Length)) :
    declared (size :: rest) =
      size.1.toList ++ ':' :: (size.2.css.toList ++ ';' :: declared rest) := by
  simp [declared, declaration]

/-- A box declares its sizes. -/
theorem toList_declarations (box : LayoutBox) : box.declarations.toList = declared box.sizes := by
  obtain ⟨layout, width, height⟩ := box
  cases layout with
  | fixed => simp [declarations, sizes, declared]
  | fixedHeight => simp [declarations, sizes, declared]
  | flexItem =>
      have given : ∀ property length, (declarationIfDefined property length).toList =
          declared ([(property, length)].filter (·.2.isDefined)) := by
        intro property length
        unfold declarationIfDefined
        cases defined : length.isDefined with
        | true => simp [declared, defined]
        | false => simp [declared, defined]
      rw [declarations, String.toList_append, given, given, ← declared_append, ← List.filter_append]
      rfl
  | nodisplay | responsive | container | fill | intrinsic | fluid => rfl

theorem known_of_mem_sizes {box : LayoutBox} {size : String × Length} (member : size ∈ box.sizes) :
    (size.1 = "width" ∨ size.1 = "height") ∧ (size.2 = box.width ∨ size.2 = box.height) := by
  have either : ∀ size ∈ [("width", box.width), ("height", box.height)],
      (size.1 = "width" ∨ size.1 = "height") ∧ (size.2 = box.width ∨ size.2 = box.height) := by
    simp
  apply either
  unfold sizes at member
  split at member
  next => exact member
  next => exact List.mem_cons_of_mem _ member
  next => exact List.mem_of_mem_filter member
  all_goals exact absurd member List.not_mem_nil

theorem sizeDeclarations_declared_iff {sizes : List (String × Length)}
    (known : ∀ size ∈ sizes, size.1 = "width" ∨ size.1 = "height") :
    SizeDeclarations (declared sizes) ↔ ∀ size ∈ sizes, size.2.IsWritable := by
  induction sizes with
  | nil => simp [declared, SizeDeclarations.nil]
  | cons size rest ih =>
      rw [List.forall_mem_cons] at known ⊢
      rw [declared_cons, ← ih known.2, ← Length.isSizeValue_css_iff]
      constructor
      · exact SizeDeclarations.of_append known.1 size.2.semicolon_not_mem_css
      · rintro ⟨valid, others⟩
        exact .cons known.1 valid others

/-! ## Lengths of a box -/

/-- What is needed for a box: both lengths can be read, and the layout can be applied. -/
theorem resolve_eq_ok_iff {tag : String} {requested? : Option Layout}
    {width? height? : Option String} {hasConditionalSizes : Bool} {box : LayoutBox} :
    resolve tag requested? width? height? hasConditionalSizes = .ok box ↔
      ∃ givenWidth givenHeight, Length.parse width? true false = .ok givenWidth ∧
        Length.parse height? true (requested? == some .fluid) = .ok givenHeight ∧
        box.width = effective givenWidth ((builtInSize? tag).map (·.1))
          (requested? == none || requested? == some .fixed) ∧
        box.height = effective givenHeight ((builtInSize? tag).map (·.2))
          (requested? == none || requested? == some .fixed || requested? == some .fixedHeight) ∧
        box.layout = requested?.getD (suitable box.width box.height hasConditionalSizes) ∧
        box.layout.isStatic = true := by
  cases readWidth : Length.parse width? true false with
  | error reason => simp [resolve, readWidth, Except.mapError, bind, Except.bind]
  | ok givenWidth =>
      cases readHeight : Length.parse height? true (requested? == some .fluid) with
      | error reason => simp [resolve, readWidth, readHeight, Except.mapError, bind, Except.bind]
      | ok givenHeight =>
          obtain ⟨layout, width, height⟩ := box
          simp only [resolve, readWidth, readHeight, Except.mapError, bind, Except.bind,
            Except.ok.injEq, ↓existsAndEq, true_and]
          split
          next isStatic =>
            constructor
            · intro same
              cases same
              exact ⟨rfl, rfl, rfl, isStatic⟩
            · rintro ⟨rfl, rfl, rfl, -⟩
              rfl
          next notStatic =>
            refine ⟨fun same => absurd same (by simp), ?_⟩
            rintro ⟨rfl, rfl, rfl, isStatic⟩
            exact absurd isStatic notStatic

theorem parse_ne_fluid {value? : Option String} {autoAllowed : Bool} {length : Length}
    (read : Length.parse value? autoAllowed false = .ok length) : length ≠ .fluid := by
  rintro rfl
  unfold Length.parse at read
  split at read
  next => exact absurd read (by simp)
  next =>
    split at read
    next => exact absurd read (by simp)
    next => exact absurd read (by simp)
  next => exact absurd read (by simp)
  next =>
    split at read
    next measured =>
      cases read
      obtain ⟨numeral, -, measured⟩ := Option.bind_eq_some_iff.mp measured
      obtain ⟨unit, -, measured⟩ := Option.bind_eq_some_iff.mp measured
      exact absurd measured (by simp)
    next => exact absurd read (by simp)

theorem effective_ne_fluid {given : Length} {builtIn? : Option Length} (admitted : Bool)
    (notGiven : given ≠ .fluid) (notBuiltIn : builtIn? ≠ some .fluid) :
    effective given builtIn? admitted ≠ .fluid := by
  unfold effective
  split
  next =>
    cases builtIn? with
    | none => exact notGiven
    | some length => simpa using notBuiltIn
  next => exact notGiven

theorem builtInSize?_ne_fluid (tag : String) : (builtInSize? tag).map (·.1) ≠ some .fluid ∧
    (builtInSize? tag).map (·.2) ≠ some .fluid := by
  unfold builtInSize?
  split
  next => simp [Length.px]
  next =>
    split
    next => simp
    next =>
      split
      next => simp [Length.px]
      next => simp

/-- No length of a box is the keyword fluid. -/
theorem ne_fluid_of_ofElement {tree : Tree} {id : NodeId} {hasConditionalSizes : Bool}
    {box : LayoutBox} (computed : ofElement tree id hasConditionalSizes = .ok box) :
    box.width ≠ .fluid ∧ box.height ≠ .fluid := by
  obtain ⟨givenWidth, givenHeight, readWidth, readHeight, width, height, layout, isStatic⟩ :=
    resolve_eq_ok_iff.mp computed
  obtain ⟨builtInWidth, builtInHeight⟩ := builtInSize?_ne_fluid ((tree.tag? id).getD "")
  have notAsked : ((tree.attribute? id "layout").bind Layout.ofName? == some .fluid) = false := by
    refine beq_eq_false_iff_ne.mpr fun asked => ?_
    rw [layout, asked] at isStatic
    exact absurd isStatic (by simp [Layout.isStatic])
  rw [notAsked] at readHeight
  rw [width, height]
  exact ⟨effective_ne_fluid _ (parse_ne_fluid readWidth) builtInWidth,
    effective_ne_fluid _ (parse_ne_fluid readHeight) builtInHeight⟩

/-! ## What is put in front of the style -/

/-- The style of an element is the declarations and what it was. -/
theorem getD_style? (box : LayoutBox) (present? : Option String) :
    (box.style? present?).getD "" = box.declarations ++ present?.getD "" := by
  unfold style?
  dsimp only
  split
  next isEmpty =>
    have empty : box.declarations = "" := by simp_all
    rw [empty, String.empty_append]
  next => rfl

section Applied

variable {tree : Tree} {id : NodeId} {element : Element} {hasConditionalSizes : Bool}
  {box : LayoutBox}

/-- The sizes that are declared when a box is applied. An audio player is left alone. -/
def appliedSizes (box : LayoutBox) (tree : Tree) (id : NodeId) : List (String × Length) :=
  if tree.isTagged id audioTag then [] else box.sizes

/-- The declarations are put in front of the style that is there. -/
theorem getD_style_applyTo (forest : tree.Forest) (isElement : tree.element? id = some element)
    (box : LayoutBox) :
    ((box.applyTo tree id).attribute? id "style").getD "" =
      String.ofList (declared (box.appliedSizes tree id)) ++
        (tree.attribute? id "style").getD "" := by
  unfold appliedSizes
  cases isAudio : tree.isTagged id audioTag with
  | true =>
      rw [applyTo_of_audio isAudio]
      simp [declared]
  | false =>
      obtain ⟨applied, -⟩ := applyTo_spec forest isElement isAudio box
      rw [Tree.attribute?_of_element? applied, Tree.attribute?_of_element? isElement,
        (written_writes box element.attributes).style, getD_style?, if_neg (by simp),
        ← toList_declarations, String.ofList_toList]

theorem of_mem_appliedSizes (computed : ofElement tree id hasConditionalSizes = .ok box) :
    ∀ size ∈ box.appliedSizes tree id,
      (size.1 = "width" ∨ size.1 = "height") ∧ size.2 ≠ .fluid := by
  obtain ⟨noWidth, noHeight⟩ := ne_fluid_of_ofElement computed
  intro size member
  have declares : size ∈ box.sizes := by
    unfold appliedSizes at member
    split at member
    next => exact absurd member List.not_mem_nil
    next => exact member
  obtain ⟨property, isWidth | isHeight⟩ := known_of_mem_sizes declares
  · exact ⟨property, isWidth ▸ noWidth⟩
  · exact ⟨property, isHeight ▸ noHeight⟩

end Applied

end LayoutBox

/-- **Which sizes are written.** What is put in front of the style of an element is a list of
declarations, one for each size that the layout declares, and none has the keyword fluid for its
value. All values are valid exactly if every size that is declared has been given, and with a
number that is not beyond all magnitudes. -/
theorem applied_sizes {tree : Tree} {id : NodeId} {element : Element} {hasConditionalSizes : Bool}
    {box : LayoutBox} (reachable : tree.Reachable) (isElement : tree.element? id = some element)
    (computed : LayoutBox.ofElement tree id hasConditionalSizes = .ok box) :
    let sizes := box.appliedSizes tree id
    ((box.applyTo tree id).attribute? id "style").getD "" =
      String.ofList (LayoutBox.declared sizes) ++ (tree.attribute? id "style").getD "" ∧
    (∀ size ∈ sizes, (size.1 = "width" ∨ size.1 = "height") ∧ size.2 ≠ .fluid) ∧
    (SizeDeclarations (LayoutBox.declared sizes) ↔
      ∀ size ∈ sizes, size.2 ≠ .undefined ∧ size.2.numeral? ≠ some .infinite) := by
  intro sizes
  have known := LayoutBox.of_mem_appliedSizes computed
  refine ⟨LayoutBox.getD_style_applyTo reachable.forest isElement box, known, ?_⟩
  rw [LayoutBox.sizeDeclarations_declared_iff fun size member => (known size member).1]
  exact forall₂_congr fun size member => Length.isWritable_iff (known size member).2

/-- A document with an image that has a width, no height, and the given further attributes. -/
def Tree.halfSizedTree (pairs : List (String × String)) : Tree :=
  Tree.built [.createElement "amp-img" (("width", "30") :: pairs), .append root 1]

/-- An item of a row declares the size that is given. -/
theorem applied_sizes_halfSizedTree :
    let tree := Tree.halfSizedTree [("layout", "flex-item"), ("style", "color:red")]
    let box : LayoutBox := ⟨.flexItem, .px 30, .undefined⟩
    LayoutBox.ofElement tree 1 false = .ok box ∧
      (box.applyTo tree 1).attribute? 1 "style" = some "width:30px;color:red" ∧
      SizeDeclarations "width:30px;".toList := by
  intro tree box
  have reachable : tree.Reachable := by
    unfold tree Tree.halfSizedTree
    exact Tree.reachable_built (by decide +kernel)
  have isElement : tree.element? 1 = some ⟨"amp-img",
      ⟨[⟨"width", "30"⟩, ⟨"layout", "flex-item"⟩, ⟨"style", "color:red"⟩]⟩⟩ := by
    decide +kernel
  have computed : LayoutBox.ofElement tree 1 false = .ok box := by decide +kernel
  obtain ⟨-, -, valid⟩ := applied_sizes reachable isElement computed
  have declared : LayoutBox.declared (box.appliedSizes tree 1) = "width:30px;".toList := by
    decide +kernel
  rw [declared] at valid
  exact ⟨computed, by decide +kernel, valid.mpr (by decide +kernel)⟩

/-- A layout can write a size that has not been given. -/
theorem applied_size_missing :
    ¬ ∀ (tree : Tree) (id : NodeId) (element : Element) (hasConditionalSizes : Bool)
      (box : LayoutBox), tree.Reachable → tree.element? id = some element →
        LayoutBox.ofElement tree id hasConditionalSizes = .ok box →
        ∃ written, SizeDeclarations written ∧
          ((box.applyTo tree id).attribute? id "style").getD "" =
            String.ofList written ++ (tree.attribute? id "style").getD "" := by
  intro claim
  have reachable : (Tree.halfSizedTree []).Reachable := by
    unfold Tree.halfSizedTree
    exact Tree.reachable_built (by decide +kernel)
  have isElement : (Tree.halfSizedTree []).element? 1 =
      some ⟨"amp-img", ⟨[⟨"width", "30"⟩]⟩⟩ := by
    decide +kernel
  let box : LayoutBox := ⟨.fixed, .px 30, .undefined⟩
  obtain ⟨written, valid, style⟩ := claim (Tree.halfSizedTree []) 1 _ false box reachable isElement
    (by decide +kernel)
  rw [LayoutBox.getD_style_applyTo reachable.forest isElement] at style
  have same : LayoutBox.declared (box.appliedSizes (Tree.halfSizedTree []) 1) = written :=
    String.ofList_injective (by simpa using style)
  have sizes : box.appliedSizes (Tree.halfSizedTree []) 1 =
      [("width", .px 30), ("height", .undefined)] := by
    decide +kernel
  rw [← same, sizes, LayoutBox.sizeDeclarations_declared_iff (by simp)] at valid
  exact valid ("height", .undefined) (by simp)

end FirstPaint
