import FirstPaint.Proofs.Responsive.Taking

/-!
# End tags in style rules

Style text is written as it is, so two characters in it decide what a reader of the markup
takes for the end of the style: a less-than sign with a slash behind it (`OpensEndTag`).

Rules are put together from fixed pieces, the id of an element, and fragments that are taken
over from attribute values as they are (`ResponsiveStyle.fragments`). No fixed piece brings
the two characters together, so rules open an end tag exactly if the id or one of the
fragments does (`opensEndTag_rulesFor`). A fragment is a part of the value that it comes
from, except for a media type that is put in front, so it opens an end tag only if the value
does (`ResponsiveStyle.opensEndTag_of_fragment`).
-/

set_option autoImplicit false

namespace FirstPaint

/-! ## Two characters -/

/-- The text has the beginning of an end tag in it. -/
def OpensEndTag (text : List Char) : Prop := ['<', '/'] <:+: text

instance (text : List Char) : Decidable (OpensEndTag text) :=
  inferInstanceAs (Decidable (['<', '/'] <:+: text))

section Characters

variable {left right text whole : List Char} {character : Char}

theorem OpensEndTag.mono (opens : OpensEndTag text) (part : text <:+: whole) :
    OpensEndTag whole :=
  opens.trans part

/-- An end tag opens on one of the sides, or across the joint. -/
theorem opensEndTag_append : OpensEndTag (left ++ right) ↔ OpensEndTag left ∨
    OpensEndTag right ∨ left.getLast? = some '<' ∧ right.head? = some '/' := by
  rw [← List.singleton_suffix_iff_getLast?_eq_some, ← List.singleton_prefix_iff_head?_eq_some]
  refine List.infix_append_iff_ne_nil.trans (or_congr_right (or_congr_right ⟨?_, ?_⟩))
  · rintro ⟨front, back, someFront, someBack, split, ends, starts⟩
    obtain ⟨none, -⟩ | ⟨more, rfl, rest⟩ := List.cons_eq_append_iff.mp split
    · exact absurd none someFront
    · obtain ⟨rfl, rfl⟩ | ⟨-, none⟩ := List.append_eq_singleton_iff.mp rest.symm
      · exact ⟨ends, starts⟩
      · exact absurd none someBack
  · rintro ⟨ends, starts⟩
    exact ⟨_, _, by simp, by simp, rfl, ends, starts⟩

/-- Behind a text that does not end in a less-than sign nothing new is opened. -/
theorem opensEndTag_append_of_getLast? (apart : left.getLast? ≠ some '<') :
    OpensEndTag (left ++ right) ↔ OpensEndTag left ∨ OpensEndTag right := by
  simp [opensEndTag_append, apart]

/-- In front of a text that does not begin with a slash nothing new is opened. -/
theorem opensEndTag_append_of_head? (apart : right.head? ≠ some '/') :
    OpensEndTag (left ++ right) ↔ OpensEndTag left ∨ OpensEndTag right := by
  simp [opensEndTag_append, apart]

theorem opensEndTag_cons (apart : character ≠ '<') :
    OpensEndTag (character :: text) ↔ OpensEndTag text := by
  have single : ¬ OpensEndTag [character] :=
    fun opens => absurd (List.IsInfix.length_le opens) (by simp)
  rw [← List.singleton_append, opensEndTag_append_of_getLast? (by simpa using apart),
    or_iff_right single]

/-- A character that separates two texts keeps them apart. -/
theorem opensEndTag_append_cons (less : character ≠ '<') (slash : character ≠ '/') :
    OpensEndTag (left ++ character :: right) ↔ OpensEndTag left ∨ OpensEndTag right := by
  rw [opensEndTag_append_of_head? (by simpa using slash), opensEndTag_cons less]

section Parts

variable {Member : Type} {list : List Member} {part : Member → List Char}

theorem head?_flatMap_ne (apart : ∀ member ∈ list, (part member).head? ≠ some character) :
    (list.flatMap part).head? ≠ some character := by
  rw [List.head?_flatMap]
  intro starts
  obtain ⟨member, inside, same⟩ := List.exists_of_findSome?_eq_some starts
  exact apart member inside same

/-- Texts of which none begins with a slash are kept apart. -/
theorem opensEndTag_flatMap (apart : ∀ member ∈ list, (part member).head? ≠ some '/') :
    OpensEndTag (list.flatMap part) ↔ ∃ member ∈ list, OpensEndTag (part member) := by
  induction list with
  | nil => simp [OpensEndTag]
  | cons first rest ih =>
      rw [List.forall_mem_cons] at apart
      rw [List.flatMap_cons, opensEndTag_append_of_head? (head?_flatMap_ne apart.2), ih apart.2]
      simp

end Parts

end Characters

/-! ## Fragments of rules -/

/-- The rule for one condition, behind a keyword. -/
def ConditionalSize.rule (entry : ConditionalSize) (keyword selector property : List Char) :
    List Char :=
  keyword ++ entry.condition ++ '{' :: selector ++ '{' :: property ++ ':' :: entry.size ++
    [';', '}', '}']

/-- What a list of sizes takes over as it is written. -/
def SizeList.fragments (list : SizeList) : List (List Char) :=
  list.default :: list.conditional.flatMap fun entry => [entry.condition, entry.size]

/-- What rules take over as it is written. -/
def ResponsiveStyle.fragments : ResponsiveStyle → List (List Char)
  | .nothing => []
  | .widths list => list.fragments
  | .heights list => list.fragments
  | .hiddenOutside query => [query]

section Rules

variable {list : SizeList} {selector property : List Char}

theorem SizeList.rules_eq (list : SizeList) (selector property : List Char) :
    list.rules selector property = selector ++ '{' :: property ++ ':' :: list.default ++
      ['}', ';'] ++ list.conditional.flatMap (·.rule "@media ".toList selector property) := by
  simp only [rules, ConditionalSize.rule]

/-- The rule for one condition keeps its parts apart. -/
theorem ConditionalSize.opensEndTag_rule {keyword : List Char}
    (noKeyword : ¬ OpensEndTag keyword) (apart : keyword.getLast? ≠ some '<')
    (plain : ¬ OpensEndTag property) (entry : ConditionalSize) :
    OpensEndTag (entry.rule keyword selector property) ↔
      OpensEndTag selector ∨ OpensEndTag entry.condition ∨ OpensEndTag entry.size := by
  have ending : ¬ OpensEndTag ['}', '}'] := by decide
  simp only [rule, List.append_assoc, List.cons_append]
  rw [opensEndTag_append_of_getLast? apart, or_iff_right noKeyword,
    opensEndTag_append_cons (by decide) (by decide),
    opensEndTag_append_cons (by decide) (by decide),
    opensEndTag_append_cons (by decide) (by decide), or_iff_right plain,
    opensEndTag_append_cons (by decide) (by decide), or_iff_left ending, or_left_comm]

theorem SizeList.exists_fragment_iff : (∃ fragment ∈ list.fragments, OpensEndTag fragment) ↔
    OpensEndTag list.default ∨ ∃ entry ∈ list.conditional,
      OpensEndTag entry.condition ∨ OpensEndTag entry.size := by
  simp only [fragments, List.exists_mem_cons_iff]
  refine or_congr_right ⟨?_, ?_⟩
  · rintro ⟨fragment, member, opens⟩
    obtain ⟨entry, listed, part⟩ := List.mem_flatMap.mp member
    refine ⟨entry, listed, ?_⟩
    rcases List.mem_pair.mp part with rfl | rfl
    · exact .inl opens
    · exact .inr opens
  · rintro ⟨entry, listed, opens | opens⟩
    · exact ⟨_, List.mem_flatMap.mpr ⟨entry, listed, List.mem_cons_self⟩, opens⟩
    · exact ⟨_, List.mem_flatMap.mpr ⟨entry, listed, by simp⟩, opens⟩

/-- Rules for sizes open an end tag in the selector or in a fragment. -/
theorem SizeList.opensEndTag_rules (plain : ¬ OpensEndTag property) :
    OpensEndTag (list.rules selector property) ↔
      OpensEndTag selector ∨ ∃ fragment ∈ list.fragments, OpensEndTag fragment := by
  have noMedia : ¬ OpensEndTag "@media ".toList := by decide +kernel
  have apart : "@media ".toList.getLast? ≠ some '<' := by decide +kernel
  have noSlash : ∀ entry ∈ list.conditional,
      (entry.rule "@media ".toList selector property).head? ≠ some '/' := by
    intro entry _
    simp [ConditionalSize.rule]
  have ending : ¬ OpensEndTag [';'] := by decide
  rw [rules_eq, opensEndTag_append_of_head? (head?_flatMap_ne noSlash),
    opensEndTag_flatMap noSlash]
  simp only [ConditionalSize.opensEndTag_rule noMedia apart plain, List.append_assoc,
    List.cons_append]
  rw [opensEndTag_append_cons (by decide) (by decide),
    opensEndTag_append_cons (by decide) (by decide), or_iff_right plain,
    opensEndTag_append_cons (by decide) (by decide), or_iff_left ending, exists_fragment_iff]
  by_cases opens : OpensEndTag selector <;> simp [opens]

/-- **Rules open an end tag in the id or in a fragment**, if there are any. -/
theorem ResponsiveStyle.opensEndTag_rules (style : ResponsiveStyle) (id : String) :
    OpensEndTag (style.rules id) ↔ style.isNothing = false ∧
      (OpensEndTag id.toList ∨ ∃ fragment ∈ style.fragments, OpensEndTag fragment) := by
  have element : OpensEndTag ('#' :: id.toList) ↔ OpensEndTag id.toList :=
    opensEndTag_cons (by decide)
  cases style with
  | nothing =>
      change OpensEndTag [] ↔ _
      simp [OpensEndTag, isNothing]
  | widths list =>
      have plain : ¬ OpensEndTag "width".toList := by decide +kernel
      change OpensEndTag (list.rules ('#' :: id.toList) "width".toList) ↔ _
      rw [SizeList.opensEndTag_rules plain, element]
      simp [isNothing, fragments]
  | heights list =>
      have plain : ¬ OpensEndTag "height".toList := by decide +kernel
      have sizer : ¬ OpensEndTag sizerTag.toList := by decide +kernel
      change OpensEndTag (list.rules ('#' :: id.toList ++ '>' :: sizerTag.toList)
        "height".toList) ↔ _
      rw [SizeList.opensEndTag_rules plain, opensEndTag_append_cons (by decide) (by decide),
        or_iff_left sizer, element]
      simp [isNothing, fragments]
  | hiddenOutside query =>
      have media : ¬ OpensEndTag "@media not ".toList := by decide +kernel
      have apart : "@media not ".toList.getLast? ≠ some '<' := by decide +kernel
      have display : ¬ OpensEndTag "display:none;".toList := by decide +kernel
      have ending : ¬ OpensEndTag ['}'] := by decide
      change OpensEndTag ("@media not ".toList ++ query ++ '{' :: ('#' :: id.toList) ++
        '{' :: "display:none;".toList ++ ['}', '}']) ↔ _
      simp only [List.append_assoc, List.cons_append]
      rw [opensEndTag_append_of_getLast? apart, or_iff_right media,
        opensEndTag_append_cons (by decide) (by decide), opensEndTag_cons (by decide),
        opensEndTag_append_cons (by decide) (by decide),
        opensEndTag_append_cons (by decide) (by decide), or_iff_right display,
        or_iff_left ending]
      simp [isNothing, fragments, or_comm]

/-- Rules begin with a number sign or an at sign. -/
theorem ResponsiveStyle.head?_rules (style : ResponsiveStyle) (id : String) :
    (style.rules id).head? ≠ some '/' := by
  have sizes : ∀ (list : SizeList) (selector property : List Char),
      (list.rules ('#' :: selector) property).head? = some '#' := by
    intro list selector property
    simp [SizeList.rules]
  cases style with
  | nothing =>
      change ([] : List Char).head? ≠ _
      simp
  | widths list => exact ne_of_eq_of_ne (sizes list _ _) (by decide)
  | heights list => exact ne_of_eq_of_ne (sizes list _ _) (by decide)
  | hiddenOutside query =>
      have start : "@media not ".toList.head? = some '@' := by cbv
      change ("@media not ".toList ++ query ++ '{' :: ('#' :: id.toList) ++
        '{' :: "display:none;".toList ++ ['}', '}']).head? ≠ _
      rw [List.append_assoc, List.append_assoc, List.append_assoc, List.head?_append, start,
        Option.some_or]
      decide

/-- The rules of found attributes, of which one asks for something. -/
theorem opensEndTag_rulesFor {found : List FoundStyle}
    (something : found.all (·.style.isNothing) = false) (id : String) :
    OpensEndTag (rulesFor found id).toList ↔ OpensEndTag id.toList ∨
      ∃ entry ∈ found, ∃ fragment ∈ entry.style.fragments, OpensEndTag fragment := by
  obtain ⟨asking, member, asks⟩ := List.all_eq_false.mp something
  rw [rulesFor, String.toList_ofList, opensEndTag_flatMap fun entry _ => entry.style.head?_rules id]
  simp only [ResponsiveStyle.opensEndTag_rules]
  constructor
  · rintro ⟨entry, listed, -, opens | ⟨fragment, part, opens⟩⟩
    · exact .inl opens
    · exact .inr ⟨entry, listed, fragment, part, opens⟩
  · rintro (opens | ⟨entry, listed, fragment, part, opens⟩)
    · exact ⟨asking, member, by simpa using asks, .inl opens⟩
    · refine ⟨entry, listed, ?_, .inr ⟨fragment, part, opens⟩⟩
      cases style : entry.style with
      | nothing =>
          rw [style] at part
          exact absurd part List.not_mem_nil
      | widths => rfl
      | heights => rfl
      | hiddenOutside => rfl

end Rules

/-! ## Where fragments come from -/

section Values

variable {value part item before after : List Char} {items : List (List Char)}

theorem SizeList.isInfix_trim (part : List Char) : trim part <:+: part := by
  have front : part.dropWhile isPadding <:+: part := (List.dropWhile_suffix _).isInfix
  refine List.IsInfix.trans ?_ front
  rw [trim, Ascii.trim, ← List.reverse_infix, List.reverse_reverse]
  exact (List.dropWhile_suffix _).isInfix

theorem infix_intercalate {separator : List Char} (member : part ∈ items) :
    part <:+: separator.intercalate items := by
  induction items with
  | nil => exact absurd member List.not_mem_nil
  | cons first rest ih =>
      rcases List.mem_cons.mp member with rfl | later
      · cases rest with
        | nil =>
            have single : separator.intercalate [part] = part := List.intercalate_singleton
            exact single.symm ▸ List.infix_refl part
        | cons second more =>
            rw [List.intercalate_cons_cons, List.append_assoc]
            exact (List.prefix_append _ _).isInfix
      · rw [List.intercalate_cons_of_ne_nil (List.ne_nil_of_mem later)]
        exact List.infix_append_of_infix_right (ih later)

/-- The parts between separators are parts of the whole. -/
theorem infix_of_mem_splitOn {separator : Char} (member : part ∈ value.splitOn separator) :
    part <:+: value := by
  have joined : part <:+: [separator].intercalate (value.splitOn separator) :=
    infix_intercalate member
  rwa [List.intercalate_splitOn] at joined

theorem SizeList.isInfix_of_splitAtLastSeparator?
    (split : splitAtLastSeparator? item = some (before, after)) :
    before <:+: item ∧ after <:+: item := by
  unfold splitAtLastSeparator? at split
  dsimp only at split
  split at split
  next => exact absurd split (by simp)
  next separator rest found =>
    obtain ⟨rfl, rfl⟩ := Prod.mk.inj (Option.some.inj split)
    have forwards : ∀ {part : List Char}, part <:+: item.reverse → part.reverse <:+: item := by
      intro part inside
      simpa only [List.reverse_reverse] using inside.reverse
    have beyond : rest <:+ separator :: rest := List.suffix_cons separator rest
    rw [← found] at beyond
    exact ⟨forwards (beyond.trans (List.dropWhile_suffix _)).isInfix,
      forwards (List.takeWhile_prefix _).isInfix⟩

theorem SizeList.isInfix_of_readConditional? {entries : List ConditionalSize}
    (read : readConditional? items = some entries) :
    ∀ entry ∈ entries, ∃ item ∈ items, entry.condition <:+: item ∧ entry.size <:+: item := by
  induction items generalizing entries with
  | nil =>
      cases read
      exact fun entry member => absurd member List.not_mem_nil
  | cons item rest ih =>
      have later : ∀ {entries}, readConditional? rest = some entries → ∀ entry ∈ entries,
          ∃ other ∈ item :: rest, entry.condition <:+: other ∧ entry.size <:+: other := by
        intro entries others entry member
        obtain ⟨other, listed, parts⟩ := ih others entry member
        exact ⟨other, List.mem_cons_of_mem item listed, parts⟩
      unfold readConditional? at read
      split at read
      next => exact later read
      next before after split =>
        dsimp only at read
        split at read
        next => exact absurd read (by simp)
        next =>
          obtain ⟨more, others, rfl⟩ := Option.map_eq_some_iff.mp read
          obtain ⟨inFront, behind⟩ := isInfix_of_splitAtLastSeparator? split
          refine List.forall_mem_cons.mpr ⟨⟨item, List.mem_cons_self, ?_⟩, later others⟩
          exact ⟨(isInfix_trim before).trans inFront, (isInfix_trim after).trans behind⟩

/-- The fragments of a list of sizes are parts of its text. -/
theorem SizeList.isInfix_of_mem_fragments {list : SizeList} (read : read? value = some list) :
    ∀ fragment ∈ list.fragments, fragment <:+: value := by
  unfold read? at read
  dsimp only at read
  split at read
  next => exact absurd read (by simp)
  next filled =>
    obtain ⟨conditional, others, same⟩ := Option.bind_eq_some_iff.mp read
    cases same
    have last : trim ((value.splitOn ',').getLast?.getD []) <:+: value := by
      refine (isInfix_trim _).trans ?_
      cases item : (value.splitOn ',').getLast? with
      | none => exact List.nil_infix
      | some item => exact infix_of_mem_splitOn (List.mem_of_getLast? item)
    refine List.forall_mem_cons.mpr ⟨last, fun fragment member => ?_⟩
    obtain ⟨entry, listed, part⟩ := List.mem_flatMap.mp member
    obtain ⟨item, isItem, condition, size⟩ := isInfix_of_readConditional? others entry listed
    have inside := infix_of_mem_splitOn (List.dropLast_subset _ isItem)
    rcases List.mem_pair.mp part with rfl | rfl
    · exact condition.trans inside
    · exact size.trans inside

section Reading

variable {blocking : ResponsiveAttribute} {value : String} {style : ResponsiveStyle}

theorem ResponsiveStyle.isInfix_of_mem_fragments {make : SizeList → ResponsiveStyle}
    (same : ∀ list, (make list).fragments = list.fragments)
    (isRead : read.ofList blocking value make = .ok style) :
    ∀ fragment ∈ style.fragments, fragment <:+: value.toList := by
  intro fragment member
  unfold read.ofList at isRead
  split at isRead
  next =>
    cases isRead
    exact absurd member List.not_mem_nil
  next =>
    split at isRead
    next list isList =>
      cases isRead
      rw [same] at member
      exact SizeList.isInfix_of_mem_fragments isList fragment member
    next => exact absurd isRead (by simp)

theorem ResponsiveStyle.opensEndTag_ofMedia {value : List Char} :
    ∀ fragment ∈ (ofMedia value).fragments, OpensEndTag fragment → OpensEndTag value := by
  intro fragment member opens
  have part := SizeList.isInfix_trim value
  unfold ofMedia at member
  split at member
  next => exact absurd member List.not_mem_nil
  next rest trimmed =>
    rw [trimmed] at part
    have added : ¬ OpensEndTag "all and ".toList := by decide +kernel
    have apart : "all and ".toList.getLast? ≠ some '<' := by decide +kernel
    cases List.mem_singleton.mp member
    rw [opensEndTag_append_of_getLast? apart, or_iff_right added] at opens
    exact opens.mono part
  next query trimmed =>
    cases List.mem_singleton.mp member
    exact opens.mono part

/-- **A fragment opens an end tag only if the value does** that it comes from. -/
theorem ResponsiveStyle.opensEndTag_of_fragment {hasImageSources : Bool}
    (isRead : read blocking value hasImageSources = .ok style) :
    ∀ fragment ∈ style.fragments, OpensEndTag fragment → OpensEndTag value.toList := by
  cases blocking with
  | sizes =>
      unfold read at isRead
      dsimp only at isRead
      split at isRead
      next => exact fun fragment member opens =>
        opens.mono (isInfix_of_mem_fragments (fun _ => rfl) isRead fragment member)
      next =>
        cases isRead
        exact fun fragment member => absurd member List.not_mem_nil
  | heights =>
      exact fun fragment member opens =>
        opens.mono (isInfix_of_mem_fragments (fun _ => rfl) isRead fragment member)
  | media =>
      cases isRead
      exact opensEndTag_ofMedia

end Reading

/-- What is found comes from a blocking attribute. -/
theorem exists_of_mem_readBlocking {hasImageSources : Bool} {entries : List Attribute}
    {found : List FoundStyle} (read : readBlocking hasImageSources entries = .ok found) :
    ∀ entry ∈ found, ∃ origin ∈ entries, ∃ blocking,
      ResponsiveAttribute.ofName? origin.name = some blocking ∧
        ResponsiveStyle.read blocking origin.value hasImageSources = .ok entry.style := by
  induction entries generalizing found with
  | nil =>
      cases read
      exact fun entry member => absurd member List.not_mem_nil
  | cons first rest ih =>
      have later : ∀ {found}, readBlocking hasImageSources rest = .ok found → ∀ entry ∈ found,
          ∃ origin ∈ first :: rest, ∃ blocking,
            ResponsiveAttribute.ofName? origin.name = some blocking ∧
              ResponsiveStyle.read blocking origin.value hasImageSources = .ok entry.style := by
        intro found others entry member
        obtain ⟨origin, listed, parts⟩ := ih others entry member
        exact ⟨origin, List.mem_cons_of_mem first listed, parts⟩
      rcases readBlocking_cons read with ⟨-, others⟩ | ⟨blocking, _, _, kind, own, others, rfl⟩
      · exact later others
      · exact List.forall_mem_cons.mpr
          ⟨⟨first, List.mem_cons_self, blocking, kind, own⟩, later others⟩

end Values

end FirstPaint
