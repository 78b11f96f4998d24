import FirstPaint.Proofs.Responsive.EndTags
import Mathlib.Data.List.DropRight
import Mathlib.Data.List.Forall2

/-!
# Lists of sizes as texts

A value states a list of sizes (`SizeList.StatedBy`): divided at its commas, its last item is the
default, items without a separator are skipped, and each other item states an entry, with the last
separator of the item between condition and size (`SizeList.States`). Reading finds the list that a
value states, and nothing else (`SizeList.read?_eq_some_iff`).

A list can also be written (`SizeList.text`), item by item: a condition, a space and a size, then
a comma with any number of spaces behind it, and the default at the end. What is written states the
list again if its parts cannot be mistaken for something else: they are not empty, hold no comma,
have nothing at their ends that does not count, and a size holds no separator, at which it would
fall apart (`SizeList.Proper`). Every list that some value states is of that kind
(`SizeList.StatedBy.proper`), so reading, writing and reading again changes nothing
(`ResponsiveStyle.sizes_round_trip`).
-/

set_option autoImplicit false

namespace FirstPaint

/-! ## Parts without anything around them -/

section Trimming

variable {outside : Char → Bool} {text : List Char} {character : Char}

theorem Ascii.trim_eq_rdropWhile (outside : Char → Bool) (text : List Char) :
    Ascii.trim outside text = (text.dropWhile outside).rdropWhile outside := rfl

/-- What is trimmed starts with a character that counts. -/
theorem Ascii.head?_trim (first : character ∈ (Ascii.trim outside text).head?) :
    outside character = false := by
  rw [trim_eq_rdropWhile] at first
  have start := List.rdropWhile_prefix outside (text.dropWhile outside)
  obtain ⟨rest, trimmed⟩ := List.head?_eq_some_iff.mp first
  rw [trimmed] at start
  have counts := List.head?_dropWhile_not outside text
  obtain ⟨more, split⟩ := start
  rw [← split] at counts
  exact counts

theorem Ascii.getLast?_trim (last : character ∈ (Ascii.trim outside text).getLast?) :
    outside character = false := by
  have counts := List.head?_dropWhile_not outside (text.dropWhile outside).reverse
  rw [Ascii.trim, List.getLast?_reverse] at last
  rw [last] at counts
  exact counts

/-- Nothing is taken from a text whose ends count. -/
theorem Ascii.trim_append_eq {front : List Char} (blank : ∀ character ∈ front, outside character)
    (first : ∀ character ∈ text.head?, outside character = false)
    (last : ∀ character ∈ text.getLast?, outside character = false) :
    Ascii.trim outside (front ++ text) = text := by
  have kept : text.dropWhile outside = text := by
    cases text with
    | nil => rfl
    | cons start rest => exact List.dropWhile_cons_of_neg (by simp [first start rfl])
  rw [trim_eq_rdropWhile, List.dropWhile_append_of_pos blank, kept,
    List.rdropWhile_eq_self_iff]
  intro nonempty
  simp [last _ (List.getLast?_eq_getLast_of_ne_nil nonempty)]

end Trimming

namespace SizeList

/-- A part of a list of sizes: it is not empty, has no comma in it, and both of its ends count. -/
structure IsPiece (part : List Char) : Prop where
  nonempty : part ≠ []
  noComma : ',' ∉ part
  front : ∀ character ∈ part.head?, isPadding character = false
  back : ∀ character ∈ part.getLast?, isPadding character = false

/-- An entry that does not fall apart when it is written: the last separator is in front of its
size. -/
structure ProperEntry (entry : ConditionalSize) : Prop where
  condition : IsPiece entry.condition
  size : IsPiece entry.size
  unspaced : ∀ character ∈ entry.size, isSeparator character = false

/-- A list whose parts cannot be mistaken for something else. -/
structure Proper (list : SizeList) : Prop where
  default : IsPiece list.default
  entries : ∀ entry ∈ list.conditional, ProperEntry entry

section Pieces

variable {part : List Char}

theorem isPiece_trim (nonempty : trim part ≠ []) (noComma : ',' ∉ part) : IsPiece (trim part) where
  nonempty := nonempty
  noComma member := noComma ((isInfix_trim part).subset member)
  front _ first := Ascii.head?_trim first
  back _ last := Ascii.getLast?_trim last

/-- Spaces in front of a part do not count. -/
theorem IsPiece.trim_spaced (isPiece : IsPiece part) (spaces : Nat) :
    trim (List.replicate spaces ' ' ++ part) = part := by
  refine Ascii.trim_append_eq (fun character member => ?_) isPiece.front isPiece.back
  rw [List.eq_of_mem_replicate member]
  decide

end Pieces

/-! ## What an item states -/

/-- Whether an item is not skipped. -/
def isSeparated (item : List Char) : Bool := item.any isSeparator

/-- What an item in front of the default says: a condition and a size with the last separator of
the item between them. -/
inductive States : List Char → ConditionalSize → Prop
  | split {before after : List Char} {separator : Char} (separates : isSeparator separator = true)
      (last : ∀ character ∈ after, isSeparator character = false) (condition : trim before ≠ [])
      (size : trim after ≠ []) :
      States (before ++ separator :: after) ⟨trim before, trim after⟩

section Items

variable {item before after : List Char} {separator : Char} {items : List (List Char)}
  {entry : ConditionalSize} {entries : List ConditionalSize}

theorem splitAtLastSeparator?_eq_none (unseparated : isSeparated item = false) :
    splitAtLastSeparator? item = none := by
  have skipped : item.reverse.dropWhile (fun character => !isSeparator character) = [] := by
    rw [List.dropWhile_eq_nil_iff]
    simpa [isSeparated] using unseparated
  simp only [splitAtLastSeparator?, skipped]

theorem splitAtLastSeparator?_eq_some (separates : isSeparator separator = true)
    (last : ∀ character ∈ after, isSeparator character = false) :
    splitAtLastSeparator? (before ++ separator :: after) = some (before, after) := by
  have skipped : ∀ character ∈ after.reverse, (!isSeparator character) = true := by
    simpa using last
  have backwards : (before ++ separator :: after).reverse =
      after.reverse ++ separator :: before.reverse := by simp
  have beyond : (separator :: before.reverse).dropWhile (fun character => !isSeparator character) =
      separator :: before.reverse := by simp [separates]
  have upTo : (separator :: before.reverse).takeWhile (fun character => !isSeparator character) =
      [] := by simp [separates]
  simp only [splitAtLastSeparator?, backwards, List.dropWhile_append_of_pos skipped,
    List.takeWhile_append_of_pos skipped, beyond, upTo, List.append_nil, List.reverse_reverse]

/-- An item with a separator has a last one. -/
theorem exists_lastSeparator (separated : isSeparated item = true) :
    ∃ before separator after, item = before ++ separator :: after ∧
      isSeparator separator = true ∧ ∀ character ∈ after, isSeparator character = false := by
  induction item with
  | nil => exact absurd separated (by simp [isSeparated])
  | cons first rest ih =>
      by_cases later : isSeparated rest = true
      · obtain ⟨before, separator, after, rfl, separates, last⟩ := ih later
        exact ⟨first :: before, separator, after, rfl, separates, last⟩
      · rw [isSeparated, List.any_cons, Bool.or_eq_true] at separated
        have last : ∀ character ∈ rest, isSeparator character = false := by
          simpa [isSeparated] using later
        exact ⟨[], first, rest, rfl, separated.resolve_right later, last⟩

theorem States.separated (states : States item entry) : isSeparated item = true := by
  obtain ⟨separates, -, -, -⟩ := states
  simp [isSeparated, separates]

/-- An item states nothing but what stands around its last separator. -/
theorem states_iff (separates : isSeparator separator = true)
    (last : ∀ character ∈ after, isSeparator character = false) :
    States (before ++ separator :: after) entry ↔
      (trim before ≠ [] ∧ trim after ≠ []) ∧ ⟨trim before, trim after⟩ = entry := by
  constructor
  · intro states
    -- Nothing is known about how the item was divided, but the reader divides it once.
    generalize same : before ++ separator :: after = item at states
    obtain ⟨otherSeparates, otherLast, condition, size⟩ := states
    have found : splitAtLastSeparator? (before ++ separator :: after) = some (before, after) :=
      splitAtLastSeparator?_eq_some separates last
    rw [same, splitAtLastSeparator?_eq_some otherSeparates otherLast] at found
    obtain ⟨rfl, rfl⟩ := Prod.mk.inj (Option.some.inj found)
    exact ⟨⟨condition, size⟩, rfl⟩
  · rintro ⟨⟨condition, size⟩, rfl⟩
    exact .split separates last condition size

/-- The items without a separator are skipped, and each of the others states one entry. -/
theorem readConditional?_eq_some_iff :
    readConditional? items = some entries ↔
      List.Forall₂ States (items.filter isSeparated) entries := by
  induction items generalizing entries with
  | nil => simp [readConditional?, eq_comm]
  | cons item rest ih =>
      by_cases separated : isSeparated item = true
      · obtain ⟨before, separator, after, rfl, separates, last⟩ := exists_lastSeparator separated
        rw [List.filter_cons_of_pos separated, List.forall₂_cons_left_iff]
        simp only [readConditional?, splitAtLastSeparator?_eq_some separates last,
          states_iff separates last, ← ih]
        by_cases empty : ((trim before).isEmpty || (trim after).isEmpty) = true
        · rw [if_pos empty]
          grind
        · rw [if_neg empty, Option.map_eq_some_iff]
          grind
      · rw [List.filter_cons_of_neg separated, ← ih]
        simp only [readConditional?,
          splitAtLastSeparator?_eq_none (Bool.eq_false_of_not_eq_true separated)]

end Items

/-! ## What a value states -/

/-- What a value says, divided at its commas: the last item is the default, and the others, those
without a separator aside, state the entries of the list one by one. -/
inductive StatedBy : SizeList → List Char → Prop
  | divide {items : List (List Char)} {last : List Char} {entries : List ConditionalSize}
      (noComma : ∀ item ∈ items ++ [last], ',' ∉ item) (default : trim last ≠ [])
      (conditional : List.Forall₂ States (items.filter isSeparated) entries) :
      StatedBy ⟨trim last, entries⟩ ([','].intercalate (items ++ [last]))

section Values

variable {value part : List Char} {list : SizeList}

theorem not_mem_of_mem_splitOn {separator : Char} (member : part ∈ value.splitOn separator) :
    separator ∉ part := by
  induction value generalizing part with
  | nil =>
      rw [List.splitOn_nil, List.mem_singleton] at member
      exact member ▸ List.not_mem_nil
  | cons first rest ih =>
      rw [List.splitOn_cons_eq_if_modifyHead] at member
      split at member
      next =>
        rcases List.mem_cons.mp member with rfl | later
        · exact List.not_mem_nil
        · exact ih later
      next differs =>
        obtain ⟨head, others, split⟩ :=
          List.exists_cons_of_ne_nil (List.splitOn_ne_nil separator rest)
        rw [split, List.modifyHead_cons] at member
        rw [split] at ih
        rcases List.mem_cons.mp member with rfl | later
        · have apart : separator ≠ first := fun same => differs (by simp [same])
          exact List.not_mem_cons_of_ne_of_not_mem apart (ih List.mem_cons_self)
        · exact ih (List.mem_cons_of_mem _ later)

/-- A list is read from the values that state it, and from no others. -/
theorem read?_eq_some_iff : read? value = some list ↔ list.StatedBy value := by
  constructor
  · intro isRead
    have divided := List.dropLast_append_getLast (List.splitOn_ne_nil ',' value)
    have last := List.getLast?_eq_getLast_of_ne_nil (List.splitOn_ne_nil ',' value)
    simp only [read?, last, Option.getD_some] at isRead
    split at isRead
    next => exact absurd isRead (by simp)
    next filled =>
      obtain ⟨entries, conditional, same⟩ := Option.bind_eq_some_iff.mp isRead
      cases same
      have stated : StatedBy ⟨_, entries⟩ ([','].intercalate _) :=
        .divide (fun item member => not_mem_of_mem_splitOn (divided ▸ member))
          (by simpa using filled) (readConditional?_eq_some_iff.mp conditional)
      rwa [divided, List.intercalate_splitOn] at stated
  · rintro ⟨noComma, default, conditional⟩
    have divided := List.splitOn_intercalate ',' noComma (by simp)
    simp [read?, divided, default, readConditional?_eq_some_iff.mpr conditional]

theorem exists_item {items : List (List Char)} {entries : List ConditionalSize}
    {entry : ConditionalSize} (stated : List.Forall₂ States items entries)
    (member : entry ∈ entries) : ∃ item ∈ items, States item entry := by
  induction stated with
  | nil => exact absurd member List.not_mem_nil
  | cons first _ ih =>
      rcases List.mem_cons.mp member with rfl | later
      · exact ⟨_, List.mem_cons_self, first⟩
      · obtain ⟨item, listed, states⟩ := ih later
        exact ⟨item, List.mem_cons_of_mem _ listed, states⟩

theorem States.proper {item : List Char} {entry : ConditionalSize} (states : States item entry)
    (noComma : ',' ∉ item) : ProperEntry entry := by
  obtain ⟨separates, last, condition, size⟩ := states
  rw [List.mem_append, List.mem_cons, not_or, not_or] at noComma
  obtain ⟨inFront, -, behind⟩ := noComma
  exact ⟨isPiece_trim condition inFront, isPiece_trim size behind,
    fun character member => last character ((isInfix_trim _).subset member)⟩

/-- A list that some value states is proper. -/
theorem StatedBy.proper (stated : list.StatedBy value) : list.Proper := by
  obtain ⟨noComma, default, conditional⟩ := stated
  refine ⟨isPiece_trim default (noComma _ (by simp)), fun entry member => ?_⟩
  obtain ⟨item, listed, states⟩ := exists_item conditional member
  exact states.proper (noComma item (List.mem_append_left _ (List.mem_of_mem_filter listed)))

end Values

/-! ## Writing -/

section Writing

variable {default : List Char} {entries : List ConditionalSize} {list : SizeList}

/-- The entries and the default with commas between them. How many spaces stand behind each comma
is left open. -/
def written (default : List Char) (spaces : Nat → Nat) : List ConditionalSize → List Char
  | [] => default
  | entry :: rest =>
    entry.condition ++ ' ' :: entry.size ++ ',' ::
      (List.replicate (spaces 0) ' ' ++ written default (fun place => spaces (place + 1)) rest)

/-- A list of sizes as a text. -/
def text (list : SizeList) (spaces : Nat → Nat) : String :=
  String.ofList (written list.default spaces list.conditional)

theorem ProperEntry.states {entry : ConditionalSize} (proper : ProperEntry entry) (indent : Nat) :
    States (List.replicate indent ' ' ++ entry.condition ++ ' ' :: entry.size) entry := by
  have condition := proper.condition.trim_spaced indent
  have size : trim entry.size = entry.size := proper.size.trim_spaced 0
  have separates : isSeparator ' ' = true := by decide
  have states : States _ ⟨trim (List.replicate indent ' ' ++ entry.condition), trim entry.size⟩ :=
    .split separates proper.unspaced (condition.symm ▸ proper.condition.nonempty)
      (size.symm ▸ proper.size.nonempty)
  rwa [condition, size] at states

theorem filter_isSeparated {items : List (List Char)} (states : List.Forall₂ States items entries) :
    items.filter isSeparated = items := by
  induction states with
  | nil => rfl
  | cons first _ ih => rw [List.filter_cons_of_pos first.separated, ih]

theorem ProperEntry.noComma {entry : ConditionalSize} (proper : ProperEntry entry) (indent : Nat) :
    ',' ∉ List.replicate indent ' ' ++ entry.condition ++ ' ' :: entry.size := by
  simp [proper.condition.noComma, proper.size.noComma]

/-- The items of what is written state the entries, however the text is indented. -/
theorem exists_items (properDefault : IsPiece default)
    (properEntries : ∀ entry ∈ entries, ProperEntry entry) (spaces : Nat → Nat) (indent : Nat) :
    ∃ items last, (∀ item ∈ items ++ [last], ',' ∉ item) ∧ trim last = default ∧
      List.Forall₂ States items entries ∧ [','].intercalate (items ++ [last]) =
        List.replicate indent ' ' ++ written default spaces entries := by
  induction entries generalizing spaces indent with
  | nil =>
      have isDefault := properDefault.trim_spaced indent
      refine ⟨[], List.replicate indent ' ' ++ default, ?_, isDefault, .nil, ?_⟩
      · simp [properDefault.noComma]
      · simp [written]
  | cons entry rest ih =>
      obtain ⟨proper, others⟩ := List.forall_mem_cons.mp properEntries
      obtain ⟨items, last, noComma, isDefault, states, joined⟩ :=
        ih others (fun place => spaces (place + 1)) (spaces 0)
      refine ⟨_ :: items, last, List.forall_mem_cons.mpr ⟨proper.noComma indent, noComma⟩,
        isDefault, .cons (proper.states indent) states, ?_⟩
      rw [List.cons_append, List.intercalate_cons_of_ne_nil (by simp), joined, written]
      simp

/-- What is written states the list. -/
theorem Proper.stated (proper : list.Proper) (spaces : Nat → Nat) :
    list.StatedBy (list.text spaces).toList := by
  obtain ⟨items, last, noComma, isDefault, states, joined⟩ :=
    exists_items proper.default proper.entries spaces 0
  have default : trim last ≠ [] := isDefault ▸ proper.default.nonempty
  have conditional : List.Forall₂ States (items.filter isSeparated) list.conditional :=
    (filter_isSeparated states).symm ▸ states
  have stated := StatedBy.divide noComma default conditional
  rw [isDefault, joined, List.replicate_zero, List.nil_append] at stated
  rwa [text, String.toList_ofList]

end Writing

end SizeList

/-! ## Reading and writing attributes -/

namespace ResponsiveStyle

/-- The list of sizes behind a style. -/
def sizes? : ResponsiveStyle → Option SizeList
  | .widths list => some list
  | .heights list => some list
  | _ => none

section Attributes

variable {blocking : ResponsiveAttribute} {value : String} {images : Bool} {list : SizeList}
  {style : ResponsiveStyle} {make : SizeList → ResponsiveStyle}

theorem sizes?_ofMedia (query : List Char) : (ofMedia query).sizes? = none := by
  unfold ofMedia
  split <;> rfl

/-- A value that states a list is read as it. -/
theorem ofList_of_statedBy (stated : list.StatedBy value.toList) :
    read.ofList blocking value make = .ok (make list) := by
  have isRead := SizeList.read?_eq_some_iff.mpr stated
  have filled : ¬ value.isEmpty = true := by
    intro empty
    have missing : SizeList.read? "".toList = none := by decide
    rw [String.isEmpty_iff.mp empty, missing] at isRead
    cases isRead
  rw [read.ofList, if_neg filled, isRead]

theorem statedBy_of_ofList (same : ∀ list, (make list).sizes? = some list)
    (isRead : read.ofList blocking value make = .ok style) (holds : style.sizes? = some list) :
    list.StatedBy value.toList ∧ style = make list := by
  unfold read.ofList at isRead
  split at isRead
  next =>
    cases isRead
    exact absurd holds (by simp [sizes?])
  next =>
    split at isRead
    next stated found =>
      cases isRead
      obtain rfl := Option.some.inj ((same stated).symm.trans holds)
      exact ⟨SizeList.read?_eq_some_iff.mp found, rfl⟩
    next => exact absurd isRead (by simp)

/-- A list of sizes comes from a value that states it, and any other such value gives the same
style. -/
theorem statedBy_of_read (isRead : read blocking value images = .ok style)
    (holds : style.sizes? = some list) : list.StatedBy value.toList ∧
      ∀ other : String, list.StatedBy other.toList → read blocking other images = .ok style := by
  cases blocking with
  | media =>
      cases isRead
      rw [sizes?_ofMedia] at holds
      cases holds
  | sizes =>
      cases images with
      | false =>
          cases isRead
          exact absurd holds (by simp [sizes?])
      | true =>
          obtain ⟨stated, rfl⟩ := statedBy_of_ofList (fun _ => rfl) isRead holds
          exact ⟨stated, fun other => ofList_of_statedBy⟩
  | heights =>
      obtain ⟨stated, rfl⟩ := statedBy_of_ofList (fun _ => rfl) isRead holds
      exact ⟨stated, fun other => ofList_of_statedBy⟩

end Attributes

/-- **Lists of sizes can be written and read again**, and reading anything leads to a list that can:
what the value states, in its order. -/
theorem sizes_round_trip :
    (∀ (list : SizeList) (spaces : Nat → Nat), list.Proper →
      read .sizes (list.text spaces) true = .ok (.widths list) ∧
      ∀ images, read .heights (list.text spaces) images = .ok (.heights list)) ∧
    ∀ (blocking : ResponsiveAttribute) (value : String) (images : Bool) (style : ResponsiveStyle)
      (list : SizeList), read blocking value images = .ok style → style.sizes? = some list →
      list.Proper ∧ list.StatedBy value.toList ∧ ∀ (spaces : Nat → Nat) (id : String),
        (read blocking (list.text spaces) images).map (·.rules id) = .ok (style.rules id) := by
  constructor
  · intro list spaces proper
    have stated := proper.stated spaces
    exact ⟨ofList_of_statedBy stated, fun _ => ofList_of_statedBy stated⟩
  · intro blocking value images style list isRead holds
    obtain ⟨stated, others⟩ := statedBy_of_read isRead holds
    refine ⟨stated.proper, stated, fun spaces id => ?_⟩
    rw [others _ (stated.proper.stated spaces)]
    rfl

theorem sizes_round_trip_formFeed :
    let value := "(min-width: 640px) \t50vw,skipped,print\x0c; 20%;, ;100vw"
    let list : SizeList := ⟨"100vw".toList,
      [⟨"(min-width: 640px)".toList, "50vw".toList⟩, ⟨"print\x0c".toList, "20%".toList⟩]⟩
    read .heights value false = .ok (.heights list) ∧ list.Proper ∧
      list.StatedBy value.toList ∧
      read .heights (list.text fun place => 2 * place) false = .ok (.heights list) ∧
      read .sizes (list.text fun place => 2 * place) true = .ok (.widths list) ∧
      (heights list).rules "a" = ("#a>i-amphtml-sizer\x7bheight:100vw\x7d;" ++
        "@media (min-width: 640px)\x7b#a>i-amphtml-sizer\x7bheight:50vw;\x7d\x7d" ++
        "@media print\x0c\x7b#a>i-amphtml-sizer\x7bheight:20%;\x7d\x7d").toList := by
  intro value list
  have isRead : read .heights value false = .ok (.heights list) := by decide +kernel
  obtain ⟨proper, stated, -⟩ :=
    sizes_round_trip.2 .heights value false (.heights list) list isRead rfl
  obtain ⟨widths, heights⟩ := sizes_round_trip.1 list (fun place => 2 * place) proper
  exact ⟨isRead, proper, stated, heights false, widths, by decide +kernel⟩

end ResponsiveStyle

end FirstPaint
