import FirstPaint.Proofs.Document.Attributes
import FirstPaint.Proofs.Text.LetterCase
import Mathlib.Data.List.Induction
import Mathlib.Data.List.Nodup

/-!
# What attributes remember

Attributes are made by giving values to names and taking names away, in any order and under any
spelling. This module says what is left of such a history (`Attributes.Remembers`). A name has the
value that the last edit of it gave; if the last edit took it away, it has none (`LastGives`). The
names stand in the order in which they were introduced: a name is introduced where it gets a value
while it has none, and it keeps that place until it is taken away (`Introduces`).

Both notions are said by splitting the history at one edit. What one more edit does to them is one
equation for each kind of edit (`lastGives_insert`, `introduces_insert` and so on). The attributes
obey equations of the same form, so what they remember is carried along by each edit
(`Remembers.insert`, `Remembers.erase`) and holds after every history (`remembers_edited`).
-/

set_option autoImplicit false

namespace FirstPaint

namespace Attributes

/-! ## Histories -/

/-- An edit of attributes. -/
inductive Edit where
  /-- A name is given a value. -/
  | insert (name value : String)
  /-- A name is taken away. -/
  | erase (name : String)
deriving DecidableEq, Repr

/-- The name that an edit is about, in lower case. -/
def Edit.key : Edit → String
  | .insert name _ => Ascii.lower name
  | .erase name => Ascii.lower name

/-- The attributes after an edit. -/
def edit (attributes : Attributes) : Edit → Attributes
  | .insert name value => attributes.insert name value
  | .erase name => attributes.erase name

/-- The attributes after edits, one after another. -/
def edited (attributes : Attributes) (edits : List Edit) : Attributes := edits.foldl edit attributes

/-- The edits that give values to names. -/
def givings (pairs : List (String × String)) : List Edit :=
  pairs.map fun pair => .insert pair.1 pair.2

theorem ofList_eq_edited (pairs : List (String × String)) :
    ofList pairs = edited ∅ (givings pairs) := by
  rw [ofList, edited, givings, List.foldl_map]
  rfl

theorem edited_append (attributes : Attributes) (earlier later : List Edit) :
    attributes.edited (earlier ++ later) = (attributes.edited earlier).edited later :=
  List.foldl_append

/-- The last edit of a name gives it a value. -/
def LastGives (history : List Edit) (key value : String) : Prop :=
  ∃ earlier spelling later, history = earlier ++ .insert spelling value :: later ∧
    Ascii.lower spelling = key ∧ ∀ edit ∈ later, edit.key ≠ key

/-- The edit at a place gives a value to a name that has none, and the name is not taken away
afterwards. -/
def Introduces (history : List Edit) (key : String) (place : Nat) : Prop :=
  ∃ earlier spelling value later, history = earlier ++ .insert spelling value :: later ∧
    earlier.length = place ∧ Ascii.lower spelling = key ∧
    (∀ present, ¬ LastGives earlier key present) ∧
    ∀ name, Edit.erase name ∈ later → Ascii.lower name ≠ key

section OneMore

variable {history : List Edit} {last : Edit} {spelling given key value : String} {place : Nat}

/-- A history is split at its last edit or before it. -/
theorem eq_or_exists_of_concat_eq {earlier later : List Edit} {middle : Edit}
    (split : history ++ [last] = earlier ++ middle :: later) :
    earlier = history ∧ middle = last ∧ later = [] ∨
      ∃ before, later = before ++ [last] ∧ history = earlier ++ middle :: before := by
  rcases List.eq_nil_or_concat' later with rfl | ⟨before, final, rfl⟩
  · obtain ⟨rfl, rfl⟩ := List.append_singleton_inj.mp split
    exact .inl ⟨rfl, rfl, rfl⟩
  · rw [← List.cons_append, ← List.append_assoc] at split
    obtain ⟨rfl, rfl⟩ := List.append_singleton_inj.mp split
    exact .inr ⟨before, rfl, rfl⟩

/-- An edit of another name leaves the value. -/
theorem lastGives_concat_of_ne (apart : last.key ≠ key) :
    LastGives (history ++ [last]) key value ↔ LastGives history key value := by
  constructor
  · rintro ⟨earlier, spelling, later, split, same, rest⟩
    rcases eq_or_exists_of_concat_eq split with ⟨-, rfl, -⟩ | ⟨before, rfl, rfl⟩
    · exact absurd same apart
    · exact ⟨earlier, spelling, before, rfl, same,
        fun edit member => rest edit (List.mem_append_left _ member)⟩
  · rintro ⟨earlier, spelling, later, rfl, same, rest⟩
    refine ⟨earlier, spelling, later ++ [last], by simp, same, fun edit member => ?_⟩
    rcases List.mem_append.mp member with old | new
    · exact rest edit old
    · rwa [List.mem_singleton.mp new]

/-- The last edit of a name decides about its value. -/
theorem lastGives_concat_self : LastGives (history ++ [last]) last.key value ↔
    ∃ spelling, last = .insert spelling value := by
  constructor
  · rintro ⟨earlier, spelling, later, split, -, rest⟩
    rcases eq_or_exists_of_concat_eq split with ⟨-, rfl, -⟩ | ⟨before, rfl, -⟩
    · exact ⟨spelling, rfl⟩
    · exact absurd rfl (rest last (by simp))
  · rintro ⟨spelling, rfl⟩
    exact ⟨history, spelling, [], rfl, rfl, fun edit member => absurd member List.not_mem_nil⟩

theorem lastGives_insert : LastGives (history ++ [.insert spelling given]) key value ↔
    if Ascii.lower spelling = key then given = value else LastGives history key value := by
  split
  next same =>
    subst same
    exact lastGives_concat_self.trans (by simp)
  next apart => exact lastGives_concat_of_ne apart

theorem lastGives_erase : LastGives (history ++ [.erase spelling]) key value ↔
    Ascii.lower spelling ≠ key ∧ LastGives history key value := by
  by_cases same : Ascii.lower spelling = key
  · subst same
    exact lastGives_concat_self.trans (by simp)
  · have apart : (Edit.erase spelling).key ≠ key := same
    rw [lastGives_concat_of_ne apart, and_iff_right same]

/-- Giving a value introduces a name that has none, and leaves the places of the others. -/
theorem introduces_insert : Introduces (history ++ [.insert spelling given]) key place ↔
    Introduces history key place ∨ Ascii.lower spelling = key ∧ history.length = place ∧
      ∀ present, ¬ LastGives history key present := by
  constructor
  · rintro ⟨earlier, other, value, later, split, counted, same, absent, stays⟩
    rcases eq_or_exists_of_concat_eq split with ⟨rfl, isLast, -⟩ | ⟨before, rfl, rfl⟩
    · cases isLast
      exact .inr ⟨same, counted, absent⟩
    · exact .inl ⟨earlier, other, value, before, rfl, counted, same, absent,
        fun name member => stays name (List.mem_append_left _ member)⟩
  · rintro (⟨earlier, other, value, later, rfl, counted, same, absent, stays⟩ |
      ⟨same, counted, absent⟩)
    · refine ⟨earlier, other, value, later ++ [.insert spelling given], by simp, counted, same,
        absent, fun name member => stays name ?_⟩
      simpa using member
    · exact ⟨history, spelling, given, [], rfl, counted, same, absent,
        fun name member => absurd member List.not_mem_nil⟩

/-- Taking a name away leaves the places of the others. -/
theorem introduces_erase : Introduces (history ++ [.erase spelling]) key place ↔
    Ascii.lower spelling ≠ key ∧ Introduces history key place := by
  constructor
  · rintro ⟨earlier, other, value, later, split, counted, same, absent, stays⟩
    rcases eq_or_exists_of_concat_eq split with ⟨-, isLast, -⟩ | ⟨before, rfl, rfl⟩
    · cases isLast
    · exact ⟨stays spelling (by simp), earlier, other, value, before, rfl, counted, same, absent,
        fun name member => stays name (List.mem_append_left _ member)⟩
  · rintro ⟨apart, earlier, other, value, later, rfl, counted, same, absent, stays⟩
    refine ⟨earlier, other, value, later ++ [.erase spelling], by simp, counted, same, absent,
      fun name member => ?_⟩
    rcases List.mem_append.mp member with old | new
    · exact stays name old
    · cases List.mem_singleton.mp new
      exact apart

theorem Introduces.lt_length (introduced : Introduces history key place) :
    place < history.length := by
  obtain ⟨earlier, _, _, later, rfl, rfl, -⟩ := introduced
  simp

end OneMore

/-- A name that is introduced has a value. -/
theorem Introduces.exists_lastGives {history : List Edit} {key : String} {place : Nat}
    (introduced : Introduces history key place) : ∃ value, LastGives history key value := by
  induction history using List.reverseRecOn with
  | nil => exact absurd introduced.lt_length (Nat.not_lt_zero place)
  | append_singleton history last ih =>
      cases last with
      | insert spelling given =>
          simp only [lastGives_insert]
          rcases introduces_insert.mp introduced with old | ⟨same, -⟩
          · obtain ⟨value, gives⟩ := ih old
            by_cases same : Ascii.lower spelling = key
            · exact ⟨given, by rw [if_pos same]⟩
            · exact ⟨value, by rwa [if_neg same]⟩
          · exact ⟨given, by rw [if_pos same]⟩
      | erase spelling =>
          obtain ⟨apart, old⟩ := introduces_erase.mp introduced
          obtain ⟨value, gives⟩ := ih old
          exact ⟨value, lastGives_erase.mpr ⟨apart, gives⟩⟩

/-! ## Names in order -/

section Names

variable {attributes : Attributes} {name other : String}

theorem names_insertEntry (entry : Attribute) (list : List Attribute) :
    (insertEntry entry list).map (·.name) =
      if list.any (·.name == entry.name) then list.map (·.name)
      else list.map (·.name) ++ [entry.name] := by
  induction list with
  | nil => rfl
  | cons first rest ih =>
      unfold insertEntry
      split
      next same => simp [same]
      next apart =>
        rw [List.map_cons, ih, List.any_cons, beq_eq_false_iff_ne.mpr apart, Bool.false_or]
        split <;> rfl

/-- A value that is given anew leaves the names in their order; a new name comes last. -/
theorem names_insert (attributes : Attributes) (name value : String) :
    (attributes.insert name value).names =
      if attributes.contains name then attributes.names
      else attributes.names ++ [Ascii.lower name] :=
  names_insertEntry ⟨Ascii.lower name, value⟩ attributes.toList

/-- Taking a name away leaves the others in their order. -/
theorem names_erase (attributes : Attributes) (name : String) :
    (attributes.erase name).names = attributes.names.filter (· != Ascii.lower name) := by
  rw [names, names, erase, List.filter_map]
  rfl

theorem contains_iff_mem_names : attributes.contains name = true ↔
    Ascii.lower name ∈ attributes.names := by
  simp [contains, names]

/-- The value that is found after one has been taken away. -/
theorem get?_erase (attributes : Attributes) (name other : String) :
    (attributes.erase name).get? other =
      if Ascii.lower name = Ascii.lower other then none else attributes.get? other := by
  split
  next same =>
    rw [get?, erase, same, List.find?_filter]
    simp
  next apart => exact get?_erase_of_ne apart

/-- Where no name stands twice, an entry is found under its name. -/
theorem find?_of_mem {list : List Attribute} {entry : Attribute}
    (distinct : (list.map (·.name)).Nodup) (member : entry ∈ list) :
    list.find? (·.name == entry.name) = some entry := by
  induction list with
  | nil => exact absurd member List.not_mem_nil
  | cons first rest ih =>
      rw [List.map_cons, List.nodup_cons] at distinct
      rcases List.mem_cons.mp member with rfl | later
      · exact List.find?_cons_of_pos (beq_self_eq_true _)
      · have apart : first.name ≠ entry.name := fun same =>
          distinct.1 (same ▸ List.mem_map_of_mem later)
        rw [List.find?_cons_of_neg (by simpa using apart), ih distinct.2 later]

end Names

/-! ## What is remembered -/

/-- The attributes are what a history of edits leaves behind. -/
structure Remembers (attributes : Attributes) (history : List Edit) : Prop where
  lower : ∀ name ∈ attributes.names, Ascii.lower name = name
  nodup : attributes.names.Nodup
  /-- A name has the value that its last edit gave, under every spelling. -/
  get?_iff : ∀ name value, attributes.get? name = some value ↔
    LastGives history (Ascii.lower name) value
  /-- Each name has been introduced at one place. -/
  introduced : ∀ name ∈ attributes.names, ∃! place, Introduces history name place
  /-- The names stand in the order of these places. -/
  ordered : attributes.names.Pairwise fun first second => ∀ early late,
    Introduces history first early → Introduces history second late → early < late

namespace Remembers

variable {attributes : Attributes} {history : List Edit}

theorem empty : Remembers ∅ [] where
  lower name member := absurd member List.not_mem_nil
  nodup := List.nodup_nil
  get?_iff name value := by
    constructor
    · intro found
      exact absurd found (by simp [get?, EmptyCollection.emptyCollection, Attributes.empty])
    · rintro ⟨earlier, _, _, split, -⟩
      exact absurd split (by simp)
  introduced name member := absurd member List.not_mem_nil
  ordered := List.Pairwise.nil

section Steps

variable (remembers : attributes.Remembers history)
include remembers

theorem contains_iff (name : String) : attributes.contains name = true ↔
    ∃ value, LastGives history (Ascii.lower name) value := by
  rw [← isSome_get?, Option.isSome_iff_exists]
  exact exists_congr (remembers.get?_iff name)

theorem exists_lastGives {name : String} (member : name ∈ attributes.names) :
    ∃ value, LastGives history name value := by
  have lowered := remembers.lower name member
  rw [← lowered] at member
  obtain ⟨value, gives⟩ := (remembers.contains_iff name).mp (contains_iff_mem_names.mpr member)
  exact ⟨value, lowered ▸ gives⟩

/-- The names that are there are those with a value. -/
theorem mem_names_iff (key : String) :
    key ∈ attributes.names ↔ ∃ value, LastGives history key value := by
  refine ⟨remembers.exists_lastGives, ?_⟩
  rintro ⟨value, gives⟩
  have lowered : Ascii.lower key = key := by
    obtain ⟨_, spelling, _, -, rfl, -⟩ := gives
    exact Ascii.lower_lower spelling
  rw [← lowered] at gives ⊢
  exact contains_iff_mem_names.mp ((remembers.contains_iff key).mpr ⟨value, gives⟩)

section Insertion

variable {name : String} (given : String)

/-- A value that is given to any name leaves the places of the names that are there. -/
theorem introduces_insert_of_mem {key : String} (member : key ∈ attributes.names) {place : Nat} :
    Introduces (history ++ [.insert name given]) key place ↔ Introduces history key place := by
  obtain ⟨value, gives⟩ := remembers.exists_lastGives member
  exact introduces_insert.trans (or_iff_left fun fresh => fresh.2.2 value gives)

/-- A value that is given to a name without one introduces it at the end. -/
theorem introduces_insert_of_absent (absent : attributes.contains name = false) {place : Nat} :
    Introduces (history ++ [.insert name given]) (Ascii.lower name) place ↔
      history.length = place := by
  have none : ∀ value, ¬ LastGives history (Ascii.lower name) value := fun value gives => by
    rw [(remembers.contains_iff name).mpr ⟨value, gives⟩] at absent
    exact absurd absent (by simp)
  refine introduces_insert.trans ⟨?_, fun last => .inr ⟨rfl, last, none⟩⟩
  rintro (earlier | ⟨-, last, -⟩)
  · obtain ⟨value, gives⟩ := earlier.exists_lastGives
    exact absurd gives (none value)
  · exact last

theorem get?_insert_iff (other value : String) :
    (attributes.insert name given).get? other = some value ↔
      LastGives (history ++ [.insert name given]) (Ascii.lower other) value := by
  rw [get?_insert, lastGives_insert]
  split
  next => exact Option.some_inj
  next => exact remembers.get?_iff other value

theorem introduced_insert : ∀ key ∈ attributes.names,
    ∃! place, Introduces (history ++ [.insert name given]) key place := by
  intro key member
  simpa only [remembers.introduces_insert_of_mem given member] using
    remembers.introduced key member

theorem ordered_insert : attributes.names.Pairwise fun first second => ∀ early late,
    Introduces (history ++ [.insert name given]) first early →
    Introduces (history ++ [.insert name given]) second late → early < late := by
  refine remembers.ordered.imp_of_mem fun isFirst isSecond before early late atFirst atSecond => ?_
  exact before early late ((remembers.introduces_insert_of_mem given isFirst).mp atFirst)
    ((remembers.introduces_insert_of_mem given isSecond).mp atSecond)

theorem insert_of_contains (present : attributes.contains name = true) :
    (attributes.insert name given).Remembers (history ++ [.insert name given]) := by
  have names : (attributes.insert name given).names = attributes.names := by
    rw [names_insert, if_pos present]
  exact ⟨names ▸ remembers.lower, names ▸ remembers.nodup, remembers.get?_insert_iff given,
    names ▸ remembers.introduced_insert given, names ▸ remembers.ordered_insert given⟩

theorem insert_of_absent (absent : attributes.contains name = false) :
    (attributes.insert name given).Remembers (history ++ [.insert name given]) := by
  have names : (attributes.insert name given).names = attributes.names ++ [Ascii.lower name] := by
    rw [names_insert, absent, if_neg (by simp)]
  have isNew : Ascii.lower name ∉ attributes.names := fun member => by
    rw [contains_iff_mem_names.mpr member] at absent
    exact absurd absent (by simp)
  refine ⟨?_, ?_, remembers.get?_insert_iff given, ?_, ?_⟩
  · rw [names, List.forall_mem_append]
    exact ⟨remembers.lower, by simp⟩
  · rw [names, ← List.concat_eq_append]
    exact remembers.nodup.concat isNew
  · rw [names, List.forall_mem_append]
    refine ⟨remembers.introduced_insert given, ?_⟩
    simp [remembers.introduces_insert_of_absent given absent]
  · rw [names, List.pairwise_append]
    refine ⟨remembers.ordered_insert given, List.pairwise_singleton _ _,
      fun key member other isLast early late atKey atLast => ?_⟩
    rw [List.mem_singleton.mp isLast] at atLast
    rw [← (remembers.introduces_insert_of_absent given absent).mp atLast]
    exact ((remembers.introduces_insert_of_mem given member).mp atKey).lt_length

end Insertion

theorem insert (name given : String) :
    (attributes.insert name given).Remembers (history ++ [.insert name given]) := by
  cases present : attributes.contains name with
  | true => exact remembers.insert_of_contains given present
  | false => exact remembers.insert_of_absent given present

theorem erase (name : String) :
    (attributes.erase name).Remembers (history ++ [.erase name]) := by
  have kept : ∀ {key : String}, key ∈ (attributes.erase name).names →
      key ∈ attributes.names ∧ Ascii.lower name ≠ key := by
    intro key member
    rw [names_erase, List.mem_filter, bne_iff_ne] at member
    exact ⟨member.1, member.2.symm⟩
  refine ⟨fun key member => remembers.lower key (kept member).1, ?_, fun other value => ?_,
    fun key member => ?_, ?_⟩
  · rw [names_erase]
    exact remembers.nodup.filter _
  · rw [get?_erase, lastGives_erase, ← remembers.get?_iff]
    split
    next same => simp [same]
    next apart => rw [and_iff_right apart]
  · obtain ⟨isName, apart⟩ := kept member
    simpa only [introduces_erase, ne_eq, apart, not_false_eq_true, true_and] using
      remembers.introduced key isName
  · rw [names_erase]
    refine (remembers.ordered.filter _).imp fun before early late atFirst atSecond => ?_
    exact before early late (introduces_erase.mp atFirst).2 (introduces_erase.mp atSecond).2

theorem edited (later : List Edit) :
    (attributes.edited later).Remembers (history ++ later) := by
  induction later generalizing attributes history with
  | nil => rwa [List.append_nil]
  | cons first rest ih =>
      rw [List.append_cons]
      cases first with
      | insert name value => exact ih (remembers.insert name value)
      | erase name => exact ih (remembers.erase name)

/-- No name has a letter in upper case. -/
theorem not_isCapital {name : String} (member : name ∈ attributes.names) :
    ∀ character ∈ name.toList, ¬ Ascii.IsCapital character :=
  Ascii.lower_eq_self_iff.mp (remembers.lower name member)

/-- Each attribute in the list is the one that is found under its name. -/
theorem get?_of_mem {entry : Attribute} (member : entry ∈ attributes.toList) :
    attributes.get? entry.name = some entry.value := by
  have lowered := remembers.lower entry.name (List.mem_map_of_mem member)
  rw [get?, lowered, find?_of_mem remembers.nodup member, Option.map_some]

end Steps

end Remembers

/-- What is found does not depend on the case of letters. -/
theorem get?_of_respells {name other : String} (respells : Ascii.Respells name other)
    (attributes : Attributes) : attributes.get? name = attributes.get? other := by
  rw [get?, get?, Ascii.lower_eq_lower_iff.mpr respells]

/-- **Attributes remember their history.** Whatever pairs they are made of, and whatever edits
follow, each name has the value that its last edit gave it, under every spelling, and the names
that have one stand in lower case and in the order in which they were introduced. So a value that
is given anew leaves the order as it is, and so does a name that is taken away, for the others. -/
theorem remembers_edited (pairs : List (String × String)) (edits : List Edit) :
    let attributes := (ofList pairs).edited edits
    let history := givings pairs ++ edits
    attributes.Remembers history ∧
      (∀ name ∈ attributes.names, ∀ character ∈ name.toList, ¬ Ascii.IsCapital character) ∧
      (∀ name other, Ascii.Respells name other → attributes.get? name = attributes.get? other) ∧
      (∀ name, attributes.contains name = true ↔
        ∃ value, LastGives history (Ascii.lower name) value) ∧
      (∀ key, key ∈ attributes.names ↔ ∃ value, LastGives history key value) ∧
      (∀ entry ∈ attributes.toList, attributes.get? entry.name = some entry.value) ∧
      (∀ name value, (attributes.insert name value).names =
        if attributes.contains name then attributes.names
        else attributes.names ++ [Ascii.lower name]) ∧
      ∀ name, (attributes.erase name).names = attributes.names.filter (· != Ascii.lower name) := by
  intro attributes history
  have remembers : attributes.Remembers history := by
    simp only [attributes, history, ofList_eq_edited, ← edited_append]
    exact Remembers.empty.edited _
  exact ⟨remembers, fun _ => remembers.not_isCapital,
    fun _ _ respells => get?_of_respells respells attributes,
    remembers.contains_iff, remembers.mem_names_iff,
    fun _ => remembers.get?_of_mem, names_insert attributes, names_erase attributes⟩

/-- A name that is given again under another spelling keeps its place, and one that comes back is
last. -/
theorem remembers_edited_respelled :
    let pairs := [("Layout", "fill"), ("id", "a"), ("LAYOUT", "fixed")]
    let edits : List Edit :=
      [.erase "Id", .insert "width" "1", .insert "ID" "b", .insert "layout" "fill"]
    let attributes := (ofList pairs).edited edits
    attributes.toList = [⟨"layout", "fill"⟩, ⟨"width", "1"⟩, ⟨"id", "b"⟩] ∧
      attributes.get? "iD" = some "b" ∧ LastGives (givings pairs ++ edits) "id" "b" := by
  intro pairs edits attributes
  have lowered : (∀ name ∈ ["Layout", "LAYOUT", "layout"], Ascii.lower name = "layout") ∧
      (∀ name ∈ ["id", "Id", "ID", "iD"], Ascii.lower name = "id") ∧
      Ascii.lower "width" = "width" := by
    simp only [← String.toList_inj, Ascii.toList_lower]
    decide
  simp only [List.forall_mem_cons] at lowered
  have listed : attributes.toList = [⟨"layout", "fill"⟩, ⟨"width", "1"⟩, ⟨"id", "b"⟩] := by
    simp [attributes, pairs, edits, ofList, edited, edit, insert, erase, insertEntry, lowered,
      EmptyCollection.emptyCollection, empty]
  have isId : attributes.get? "iD" = some "b" := by simp [get?, listed, lowered]
  obtain ⟨remembers, -⟩ := remembers_edited pairs edits
  exact ⟨listed, isId, by simpa [lowered] using (remembers.get?_iff "iD" "b").mp isId⟩

end Attributes

end FirstPaint
