import FirstPaint.Markup.Fragment
import FirstPaint.Proofs.Markup.Entities
import Mathlib.Data.List.Basic

/-!
# Where written things end

Markup is read from the left, so each thing that is written has to say itself where it
ends. There are two ways. A run of characters of one class ends at the first character
of another class; a name and a text between tags end like this. Free content ends at
the first occurrence of a terminator that it does not contain; a comment, a marked
section and raw text end like this.

In both cases the statement is that of a prefix-free code: if two written things with
something behind each of them are the same list of characters, then the two things are
the same and so is what stands behind them. A quoted value is a run up to its
quotation mark, because escaping takes the marks out of it; escaping itself loses
nothing (`escape_injective`). From these the start tag of an element gives back the
element (`Element.startTag_append_inj`).
-/

set_option autoImplicit false

namespace FirstPaint

/-! ## Runs and terminators -/

section Ends

variable {left right rest others : List Char}

/-- What follows does not go on with a character of a class. -/
def StopsRun (inside : Char → Bool) (rest : List Char) : Prop :=
  ∀ next ∈ rest.head?, inside next = false

/-- What begins with a character outside a class stops every run of the class. -/
theorem stopsRun_cons {inside : Char → Bool} {mark : Char} (rest : List Char)
    (outside : inside mark = false) : StopsRun inside (mark :: rest) := by
  intro next first
  obtain rfl : mark = next := Option.some.inj first
  exact outside

theorem takeWhile_run {inside : Char → Bool} (run : ∀ character ∈ left, inside character = true)
    (stops : StopsRun inside rest) : (left ++ rest).takeWhile inside = left := by
  rw [List.takeWhile_append_of_pos run]
  cases rest with
  | nil => simp
  | cons next more =>
      rw [List.takeWhile_cons_of_neg (by simp [stops next rfl]), List.append_nil]

/-- A run of characters of one class ends where the class ends. -/
theorem run_append_inj {inside : Char → Bool}
    (leftRun : ∀ character ∈ left, inside character = true)
    (rightRun : ∀ character ∈ right, inside character = true)
    (restStops : StopsRun inside rest) (othersStop : StopsRun inside others)
    (same : left ++ rest = right ++ others) : left = right ∧ rest = others := by
  have runs : left = right := by
    rw [← takeWhile_run leftRun restStops, same, takeWhile_run rightRun othersStop]
  subst runs
  exact ⟨rfl, List.append_cancel_left same⟩

/-- A run that is free of a mark ends at the mark. -/
theorem marked_append_inj {mark : Char} (leftFree : mark ∉ left) (rightFree : mark ∉ right)
    (same : left ++ mark :: rest = right ++ mark :: others) : left = right ∧ rest = others := by
  have inRun : ∀ {run : List Char}, mark ∉ run →
      ∀ character ∈ run, (character != mark) = true := by
    intro run free character member
    rw [bne_iff_ne]
    exact fun same => free (same ▸ member)
  obtain ⟨runs, behind⟩ := run_append_inj (inRun leftFree) (inRun rightFree)
    (stopsRun_cons rest (bne_self_eq_false mark)) (stopsRun_cons others (bne_self_eq_false mark))
    same
  exact ⟨runs, (List.cons.inj behind).2⟩

/-- A terminator whose last character occurs in it once does not begin inside content
that is free of it. -/
theorem gap_eq_nil {front gap : List Char} {last : Char} (once : last ∉ front)
    (free : ¬ front ++ [last] <:+: gap)
    (same : front ++ last :: rest = gap ++ (front ++ last :: others)) : gap = [] := by
  rcases List.append_eq_append_iff.mp same with ⟨more, shorter, -⟩ | ⟨more, split, behind⟩
  · -- The gap covers the front, so it is empty or holds the last character as well.
    subst shorter
    rw [List.append_assoc] at same
    have heads := List.append_cancel_left same
    cases more with
    | nil =>
        cases front with
        | nil => rfl
        | cons first front =>
            rw [List.nil_append, List.cons_append, List.cons.injEq] at heads
            exact absurd (heads.1 ▸ List.mem_cons_self) once
    | cons next more =>
        rw [List.cons_append, List.cons.injEq] at heads
        exact absurd ⟨[], more, by simp [heads.1]⟩ free
  · -- The front covers the gap, and the last character then ends both fronts.
    have moreFree : last ∉ more := fun member => once (split ▸ List.mem_append_right gap member)
    rw [(marked_append_inj once moreFree behind).1] at split
    exact List.append_left_eq_self.mp split.symm

/-- Content ends at the first occurrence of a terminator that it does not contain. -/
theorem terminated_append_inj {front : List Char} {last : Char} (once : last ∉ front)
    (leftFree : ¬ front ++ [last] <:+: left) (rightFree : ¬ front ++ [last] <:+: right)
    (same : left ++ (front ++ last :: rest) = right ++ (front ++ last :: others)) :
    left = right ∧ rest = others := by
  have contents : left = right := by
    rcases List.append_eq_append_iff.mp same with ⟨gap, longer, behind⟩ | ⟨gap, longer, behind⟩
    · have free : ¬ front ++ [last] <:+: gap := fun inGap =>
        rightFree (longer ▸ inGap.trans (List.suffix_append left gap).isInfix)
      rw [longer, gap_eq_nil once free behind, List.append_nil]
    · have free : ¬ front ++ [last] <:+: gap := fun inGap =>
        leftFree (longer ▸ inGap.trans (List.suffix_append right gap).isInfix)
      rw [longer, gap_eq_nil once free behind, List.append_nil]
  subst contents
  have tails := List.append_cancel_left (List.append_cancel_left same)
  exact ⟨rfl, (List.cons.inj tails).2⟩

end Ends

/-! ## Names, attributes and start tags -/

/-- The characters of a tag after its first one. -/
def isTagCharacter (character : Char) : Bool :=
  character.isLower || character.isDigit || character == '-'

/-- The characters of an attribute name: no white space, no quotes, and none of the
signs that end the name or the tag. -/
def isNameCharacter (character : Char) : Bool :=
  !Ascii.isWhitespace character && !(['"', '\x27', '=', '<', '>', '/'].contains character)

/-- A tag starts with a small letter; small letters, digits and hyphens follow. -/
def isTagName (name : String) : Bool :=
  name.toList.head?.any (·.isLower) && name.toList.all isTagCharacter

/-- An attribute name is not empty. -/
def isAttributeName (name : String) : Bool :=
  !name.isEmpty && name.toList.all isNameCharacter

theorem isTagCharacter_of_isTagName {name : String} (valid : isTagName name = true) :
    ∀ character ∈ name.toList, isTagCharacter character = true :=
  List.all_eq_true.mp (Bool.and_eq_true_iff.mp valid).2

theorem isNameCharacter_of_isAttributeName {name : String} (valid : isAttributeName name = true) :
    ∀ character ∈ name.toList, isNameCharacter character = true :=
  List.all_eq_true.mp (Bool.and_eq_true_iff.mp valid).2

/-- What stands behind an attribute: the space before another one or the end of the
start tag. -/
def EndsAttribute (rest : List Char) : Prop :=
  ∃ mark more, rest = mark :: more ∧ (mark = ' ' ∨ mark = '>')

theorem EndsAttribute.stopsRun {inside : Char → Bool} {rest : List Char}
    (ends : EndsAttribute rest) (space : inside ' ' = false) (greater : inside '>' = false) :
    StopsRun inside rest := by
  obtain ⟨mark, more, rfl, rfl | rfl⟩ := ends
  · exact stopsRun_cons more space
  · exact stopsRun_cons more greater

/-- The value of an attribute behind its name: nothing, or an equals sign and the
quoted value. -/
def Attribute.assignment (entry : Attribute) : List Char :=
  if entry.value.isEmpty then []
  else '=' :: '"' :: EscapeContext.attributeValue.escape entry.value.toList ++ ['"']

theorem Attribute.markup_append (entry : Attribute) (rest : List Char) :
    entry.markup ++ rest = ' ' :: (entry.name.toList ++ (entry.assignment ++ rest)) := by
  simp [markup, assignment]

section Attributes

variable {first second : Attribute} {rest others : List Char}

theorem Attribute.assignment_of_empty (empty : first.value = "") : first.assignment = [] := by
  simp [assignment, empty]

theorem Attribute.assignment_append_of_ne (filled : first.value ≠ "") (rest : List Char) :
    first.assignment ++ rest =
      '=' :: '"' :: (EscapeContext.attributeValue.escape first.value.toList ++ '"' :: rest) := by
  simp [assignment, String.isEmpty_iff, filled]

theorem Attribute.assignment_stopsRun (ends : EndsAttribute rest) :
    StopsRun isNameCharacter (first.assignment ++ rest) := by
  by_cases empty : first.value = ""
  · rw [assignment_of_empty empty]
    exact ends.stopsRun (by decide) (by decide)
  · rw [assignment_append_of_ne empty]
    exact stopsRun_cons _ (by decide)

theorem EndsAttribute.ne_equals (ends : EndsAttribute rest) (more : List Char) :
    rest ≠ '=' :: more := by
  rintro rfl
  obtain ⟨mark, more, same, rfl | rfl⟩ := ends <;> simp at same

/-- A bare name and a quoted value tell themselves apart, and a quoted value ends at its
second quotation mark. -/
theorem Attribute.assignment_append_inj (firstEnds : EndsAttribute rest)
    (secondEnds : EndsAttribute others)
    (same : first.assignment ++ rest = second.assignment ++ others) :
    first.value = second.value ∧ rest = others := by
  by_cases empty : first.value = ""
  · rw [assignment_of_empty empty, List.nil_append] at same
    by_cases blank : second.value = ""
    · rw [assignment_of_empty blank, List.nil_append] at same
      exact ⟨empty.trans blank.symm, same⟩
    · rw [assignment_append_of_ne blank] at same
      exact absurd same (firstEnds.ne_equals _)
  · rw [assignment_append_of_ne empty] at same
    by_cases blank : second.value = ""
    · rw [assignment_of_empty blank, List.nil_append] at same
      exact absurd same.symm (secondEnds.ne_equals _)
    · rw [assignment_append_of_ne blank, List.cons.injEq, List.cons.injEq] at same
      obtain ⟨values, behind⟩ := marked_append_inj (EscapeContext.quotation_not_mem_escape _)
        (EscapeContext.quotation_not_mem_escape _) same.2.2
      exact ⟨String.toList_inj.mp (EscapeContext.escape_injective _ values), behind⟩

/-- An attribute gives back its name and its value. -/
theorem Attribute.markup_append_inj (firstName : isAttributeName first.name = true)
    (secondName : isAttributeName second.name = true) (firstEnds : EndsAttribute rest)
    (secondEnds : EndsAttribute others)
    (same : first.markup ++ rest = second.markup ++ others) :
    first = second ∧ rest = others := by
  rw [markup_append, markup_append, List.cons.injEq] at same
  obtain ⟨names, behind⟩ := run_append_inj (isNameCharacter_of_isAttributeName firstName)
    (isNameCharacter_of_isAttributeName secondName) (assignment_stopsRun firstEnds)
    (assignment_stopsRun secondEnds) same.2
  obtain ⟨values, behind⟩ := assignment_append_inj firstEnds secondEnds behind
  refine ⟨?_, behind⟩
  cases first
  cases second
  rw [Attribute.mk.injEq]
  exact ⟨String.toList_inj.mp names, values⟩

end Attributes

theorem endsAttribute_markup (entries : List Attribute) (rest : List Char) :
    EndsAttribute (entries.flatMap Attribute.markup ++ '>' :: rest) := by
  cases entries with
  | nil => exact ⟨'>', rest, rfl, .inr rfl⟩
  | cons entry entries =>
      rw [List.flatMap_cons, List.append_assoc, Attribute.markup_append]
      exact ⟨' ', _, rfl, .inl rfl⟩

/-- A list of attributes ends with the start tag. -/
theorem attributes_append_inj {left right : List Attribute} {rest others : List Char}
    (leftNames : ∀ entry ∈ left, isAttributeName entry.name = true)
    (rightNames : ∀ entry ∈ right, isAttributeName entry.name = true)
    (same : left.flatMap Attribute.markup ++ '>' :: rest =
      right.flatMap Attribute.markup ++ '>' :: others) : left = right ∧ rest = others := by
  induction left generalizing right with
  | nil =>
      cases right with
      | nil => simpa using same
      | cons second right =>
          rw [List.flatMap_cons, List.append_assoc, Attribute.markup_append] at same
          exact absurd (List.cons.inj same).1 (by decide)
  | cons first left ih =>
      cases right with
      | nil =>
          rw [List.flatMap_cons, List.append_assoc, Attribute.markup_append] at same
          exact absurd (List.cons.inj same).1 (by decide)
      | cons second right =>
          rw [List.flatMap_cons, List.flatMap_cons, List.append_assoc, List.append_assoc] at same
          rw [List.forall_mem_cons] at leftNames rightNames
          obtain ⟨rfl, behind⟩ := Attribute.markup_append_inj leftNames.1 rightNames.1
            (endsAttribute_markup left rest) (endsAttribute_markup right others) same
          obtain ⟨rfl, ends⟩ := ih leftNames.2 rightNames.2 behind
          exact ⟨rfl, ends⟩

namespace Element

/-- Tag and attributes of an element are names that can be read back. -/
structure Named (element : Element) : Prop where
  tag : isTagName element.tag = true
  attributes : ∀ entry ∈ element.attributes.toList, isAttributeName entry.name = true

instance (element : Element) : Decidable element.Named :=
  decidable_of_iff (isTagName element.tag = true ∧
      ∀ entry ∈ element.attributes.toList, isAttributeName entry.name = true)
    ⟨fun parts => ⟨parts.1, parts.2⟩, fun named => ⟨named.tag, named.attributes⟩⟩

/-- Behind the bracket of a start tag stands a small letter. -/
theorem Named.exists_lower {element : Element} (named : element.Named) :
    ∃ first rest, element.tag.toList = first :: rest ∧ first.isLower = true := by
  have start := (Bool.and_eq_true_iff.mp named.tag).1
  cases split : element.tag.toList with
  | nil => simp [split] at start
  | cons first rest => exact ⟨first, rest, rfl, by simpa [split] using start⟩

theorem startTag_append (element : Element) (rest : List Char) :
    element.startTag ++ rest = '<' :: (element.tag.toList ++
      (element.attributes.toList.flatMap Attribute.markup ++ '>' :: rest)) := by
  simp [startTag]

/-- **A start tag gives back the element**, and what follows begins where it ends. -/
theorem startTag_append_inj {first second : Element} {rest others : List Char}
    (firstNamed : first.Named) (secondNamed : second.Named)
    (same : first.startTag ++ rest = second.startTag ++ others) :
    first = second ∧ rest = others := by
  rw [startTag_append, startTag_append, List.cons.injEq] at same
  obtain ⟨tags, behind⟩ := run_append_inj (isTagCharacter_of_isTagName firstNamed.tag)
    (isTagCharacter_of_isTagName secondNamed.tag)
    ((endsAttribute_markup _ rest).stopsRun (by decide) (by decide))
    ((endsAttribute_markup _ others).stopsRun (by decide) (by decide)) same.2
  obtain ⟨entries, behind⟩ :=
    attributes_append_inj firstNamed.attributes secondNamed.attributes behind
  refine ⟨?_, behind⟩
  cases first with
  | mk firstTag firstAttributes =>
  cases second with
  | mk secondTag secondAttributes =>
  cases firstAttributes
  cases secondAttributes
  rw [Element.mk.injEq, Attributes.mk.injEq]
  exact ⟨String.toList_inj.mp tags, entries⟩

end Element

end FirstPaint
