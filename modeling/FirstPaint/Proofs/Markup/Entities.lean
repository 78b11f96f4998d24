import FirstPaint.Markup.Escape
import Mathlib.Logic.Function.Basic

/-!
# Reading escaped text

Escaping writes some characters as entities and leaves the others as they are. The
ampersand, with which every entity begins, is always written as one, so an ampersand in
escaped text begins an entity and stands for nothing else. A reader who replaces the
entities, from the left and each of them once, therefore gets back what was escaped
(`decodeEntities_escape`). This holds of every text: an entity in the text itself has lost
its ampersand to another entity, and it is the other one that is replaced.

Which characters are written as entities depends on the place where the text stands, but
what an entity stands for does not. So the reader need not know the place.
-/

set_option autoImplicit false

namespace FirstPaint

/-! ## Entities -/

/-- The characters that are written as entities in one context or the other. -/
def entities : List (Char × List Char) :=
  [('&', "&amp;".toList), ('\u00a0', "&nbsp;".toList), ('<', "&lt;".toList),
    ('>', "&gt;".toList), ('"', "&quot;".toList)]

/-- The first two characters of an entity tell it from the others. -/
theorem entity_ext : ∀ first ∈ entities, ∀ second ∈ entities,
    first.2.take 2 = second.2.take 2 → first = second := by
  decide

theorem two_le_length_entity : ∀ entity ∈ entities, 2 ≤ entity.2.length := by
  decide

/-- An entity begins with its only ampersand. -/
theorem exists_tail_of_entity : ∀ entity ∈ entities,
    ∃ tail, entity.2 = '&' :: tail ∧ '&' ∉ tail := by
  simp [entities]

namespace EscapeContext

variable (context : EscapeContext)

/-- The entities that are written in a context. -/
def emitted : List (Char × List Char) :=
  entities.filter fun entity => context.escapeChar entity.1 == entity.2

/-- The characters that end a text where it stands. -/
def delimiters : EscapeContext → List Char
  | content => ['<', '>']
  | attributeValue => ['"']

theorem emitted_subset : context.emitted ⊆ entities := List.filter_sublist.subset

/-- A character is written as itself or as an entity. The ampersand, with which entities
begin, is never written as itself. -/
theorem escapeChar_cases (character : Char) :
    context.escapeChar character = [character] ∧ character ≠ '&' ∨
      (character, context.escapeChar character) ∈ context.emitted := by
  have ofEntity (listed : (character, context.escapeChar character) ∈ entities) :
      (character, context.escapeChar character) ∈ context.emitted :=
    List.mem_filter.mpr ⟨listed, beq_self_eq_true _⟩
  refine Or.imp_right ofEntity ?_
  unfold escapeChar
  by_cases ampersand : character = '&'
  · simp [ampersand, entities]
  by_cases space : character = '\u00a0'
  · simp [space, entities]
  rw [if_neg ampersand, if_neg space]
  cases context with
  | content =>
      by_cases less : character = '<'
      · simp [less, entities]
      by_cases greater : character = '>'
      · simp [greater, entities]
      · simp [less, greater, ampersand]
  | attributeValue =>
      by_cases quotation : character = '"'
      · simp [quotation, entities]
      · simp [quotation, ampersand]

theorem escapeChar_ne_nil (character : Char) : context.escapeChar character ≠ [] := by
  rcases context.escapeChar_cases character with ⟨plain, -⟩ | entity
  · rw [plain]
    exact List.cons_ne_nil _ _
  · obtain ⟨tail, spelled, -⟩ := exists_tail_of_entity _ (context.emitted_subset entity)
    rw [show context.escapeChar character = '&' :: tail from spelled]
    exact List.cons_ne_nil _ _

theorem escape_cons (character : Char) (text : List Char) :
    context.escape (character :: text) = context.escapeChar character ++ context.escape text :=
  rfl

/-- A character that is not written as itself, and that stands in no entity, does not occur in
escaped text. -/
theorem not_mem_escape {mark : Char} (hidden : mark ∉ context.escapeChar mark)
    (apart : ∀ entity ∈ entities, mark ∉ entity.2) (text : List Char) :
    mark ∉ context.escape text := by
  intro member
  obtain ⟨written, -, inside⟩ := List.mem_flatMap.mp member
  rcases context.escapeChar_cases written with ⟨plain, -⟩ | entity
  · rw [plain, List.mem_singleton] at inside
    exact hidden (inside ▸ plain ▸ List.mem_cons_self)
  · exact apart _ (context.emitted_subset entity) inside

theorem delimiter_not_mem_escape {mark : Char} (delimits : mark ∈ context.delimiters)
    (text : List Char) : mark ∉ context.escape text := by
  cases context with
  | content =>
      have either : mark = '<' ∨ mark = '>' := by simpa [delimiters] using delimits
      rcases either with rfl | rfl
      · exact not_mem_escape _ (by decide) (by decide) text
      · exact not_mem_escape _ (by decide) (by decide) text
  | attributeValue =>
      obtain rfl := List.mem_singleton.mp delimits
      exact not_mem_escape _ (by decide) (by decide) text

/-- Escaped text between tags holds no angle bracket. -/
theorem less_not_mem_escape (text : List Char) : '<' ∉ content.escape text :=
  content.delimiter_not_mem_escape List.mem_cons_self text

/-- An escaped attribute value holds no quotation mark. -/
theorem quotation_not_mem_escape (text : List Char) : '"' ∉ attributeValue.escape text :=
  attributeValue.delimiter_not_mem_escape List.mem_cons_self text

/-- Every ampersand in escaped text begins an entity that is written there. -/
theorem entity_of_ampersand {text front back : List Char}
    (split : context.escape text = front ++ '&' :: back) :
    ∃ entity ∈ context.emitted, entity.2 <+: '&' :: back := by
  induction text generalizing front with
  | nil => exact absurd split (by simp [escape])
  | cons first text ih =>
      rw [escape_cons] at split
      rcases List.append_eq_append_iff.mp split with ⟨more, -, behind⟩ | ⟨more, written, behind⟩
      · exact ih behind
      cases more with
      | nil =>
          have split : context.escape text = [] ++ '&' :: back := behind.symm
          exact ih split
      | cons mark more =>
          -- The ampersand is one of the characters that the first one is written as.
          obtain ⟨rfl, rfl⟩ := List.cons.inj behind
          rcases context.escapeChar_cases first with ⟨plain, different⟩ | entity
          · have member : '&' ∈ context.escapeChar first := by simp [written]
            rw [plain, List.mem_singleton] at member
            exact absurd member.symm different
          · obtain ⟨tail, spelled, once⟩ := exists_tail_of_entity _ (context.emitted_subset entity)
            have written : '&' :: tail = front ++ '&' :: more := spelled.symm.trans written
            refine ⟨_, entity, ?_⟩
            cases front with
            | nil => exact ⟨context.escape text, by rw [spelled, written]; rfl⟩
            | cons other front =>
                obtain ⟨-, rfl⟩ := List.cons.inj written
                exact absurd (by simp) once

end EscapeContext

/-! ## Reading -/

/-- The entity of a table with which a text begins. -/
def leadingEntity? (table : List (Char × List Char)) (text : List Char) :
    Option (Char × List Char) :=
  table.find? (·.2.isPrefixOf text)

/-- A text with the entities of a table replaced by the characters that they stand for. Any
other character stands for itself, also an ampersand with which no entity begins. -/
def decodeEntities (table : List (Char × List Char)) : List Char → List Char
  | [] => []
  | first :: rest =>
    match leadingEntity? table (first :: rest) with
    | some entity => entity.1 :: decodeEntities table (rest.drop (entity.2.length - 1))
    | none => first :: decodeEntities table rest
termination_by text => text.length

section Reading

variable {table : List (Char × List Char)} (standard : table ⊆ entities)
include standard

theorem decodeEntities_plain {character : Char} (plain : character ≠ '&') (rest : List Char) :
    decodeEntities table (character :: rest) = character :: decodeEntities table rest := by
  have noEntity : leadingEntity? table (character :: rest) = none := by
    refine List.find?_eq_none.mpr fun entity listed begins => ?_
    obtain ⟨tail, spelled, -⟩ := exists_tail_of_entity entity (standard listed)
    rw [spelled, List.isPrefixOf_cons_cons, Bool.and_eq_true, beq_iff_eq] at begins
    exact plain begins.1.symm
  rw [decodeEntities, noEntity]

theorem leadingEntity?_append {entity : Char × List Char} (listed : entity ∈ table)
    (rest : List Char) : leadingEntity? table (entity.2 ++ rest) = some entity := by
  cases found : leadingEntity? table (entity.2 ++ rest) with
  | none =>
      have noPrefix := List.find?_eq_none.mp found entity listed
      exact absurd (List.isPrefixOf_iff_prefix.mpr (List.prefix_append _ _)) noPrefix
  | some other =>
      have otherListed := standard (List.mem_of_find?_eq_some found)
      have begins := List.find?_some found
      rw [List.isPrefixOf_iff_prefix] at begins
      have starts : other.2.take 2 = entity.2.take 2 := by
        obtain ⟨more, same⟩ := begins
        have both := congrArg (List.take 2) same
        rwa [List.take_append_of_le_length (two_le_length_entity other otherListed),
          List.take_append_of_le_length (two_le_length_entity entity (standard listed))] at both
      rw [entity_ext other otherListed entity (standard listed) starts]

theorem decodeEntities_entity {entity : Char × List Char} (listed : entity ∈ table)
    (rest : List Char) :
    decodeEntities table (entity.2 ++ rest) = entity.1 :: decodeEntities table rest := by
  have leading := leadingEntity?_append standard listed rest
  obtain ⟨tail, spelled, -⟩ := exists_tail_of_entity entity (standard listed)
  rw [spelled, List.cons_append] at leading ⊢
  rw [decodeEntities, leading]
  simp [spelled]

variable {context : EscapeContext} (known : context.emitted ⊆ table)
include known

/-- What a character is written as is read as the character. -/
theorem decodeEntities_escapeChar (character : Char) (rest : List Char) :
    decodeEntities table (context.escapeChar character ++ rest) =
      character :: decodeEntities table rest := by
  rcases context.escapeChar_cases character with ⟨plain, different⟩ | entity
  · rw [plain]
    exact decodeEntities_plain standard different rest
  · exact decodeEntities_entity standard (known entity) rest

/-- A reader that knows the entities of a context takes escaped text back to the text. -/
theorem decodeEntities_escape (text : List Char) :
    decodeEntities table (context.escape text) = text := by
  induction text with
  | nil => rw [EscapeContext.escape, List.flatMap_nil, decodeEntities]
  | cons first text ih =>
      rw [context.escape_cons, decodeEntities_escapeChar standard known, ih]

end Reading

namespace EscapeContext

variable (context : EscapeContext)

/-- Escaping loses nothing. -/
theorem escape_injective : Function.Injective context.escape := by
  have inverse : Function.LeftInverse (decodeEntities entities) context.escape :=
    decodeEntities_escape (List.Subset.refl _) context.emitted_subset
  exact inverse.injective

/-- What a reader of escaped text can rely on. -/
structure ReadsBack (text : List Char) : Prop where
  /-- Nothing in it ends the place where it stands. -/
  closed : ∀ mark ∈ context.delimiters, mark ∉ context.escape text
  /-- Every ampersand in it begins an entity that is written there. -/
  ampersand : ∀ {front back}, context.escape text = front ++ '&' :: back →
    ∃ entity ∈ context.emitted, entity.2 <+: '&' :: back
  /-- The entities replaced, it is the text again. -/
  decoded : decodeEntities context.emitted (context.escape text) = text
  /-- A reader that knows the entities of the other place as well reads the same. -/
  decodedAnywhere : decodeEntities entities (context.escape text) = text

/-- **Escaping can be taken back, and hides what would end the text.** In both contexts every
text is free of delimiters after escaping, every ampersand begins an entity, and replacing the
entities gives the text back; so different texts are never written alike, not even where they
look like entities themselves. -/
theorem escape_readsBack :
    (∀ text, context.ReadsBack text) ∧ Function.Injective context.escape := by
  refine ⟨fun text => ?_, context.escape_injective⟩
  exact {
    closed := fun _ delimits => context.delimiter_not_mem_escape delimits text
    ampersand := context.entity_of_ampersand
    decoded := decodeEntities_escape context.emitted_subset (List.Subset.refl _) text
    decodedAnywhere := decodeEntities_escape (List.Subset.refl _) context.emitted_subset text }

example : content.escape "&lt;".toList = "&amp;lt;".toList := by decide

end EscapeContext

end FirstPaint
