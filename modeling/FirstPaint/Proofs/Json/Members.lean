import FirstPaint.Json.Value
import FirstPaint.Proofs.Json.StringLiterals
import Mathlib.Data.List.Forall2

/-!
# Members with commas between them

A list is written with its first member in front and each further one behind a comma
(`commaSeparated_cons`), and that is the form in which a list of members is read and compared:
what stands behind a member begins with a comma if there is a further one, and with the closing
bracket otherwise.

A way of writing is `Telling` if a form is told from whatever stands behind it. It passes from
the members to the array (`Telling.bracketed`). A reader that takes the form of each member gives
a reader that takes the list (`readOptionalMembers_commaSeparated`).
-/

set_option autoImplicit false

namespace FirstPaint

namespace Json

variable {α : Type}

/-- The members after the first, each behind its comma. -/
def furtherMembers (form : α → List Char) (members : List α) : List Char :=
  members.flatMap fun member => ',' :: form member

theorem commaSeparated_cons (form : α → List Char) (first : α) (others : List α) :
    commaSeparated ((first :: others).map form) = form first ++ furtherMembers form others := by
  induction others generalizing first with
  | nil => rfl
  | cons second others ih =>
      have split : commaSeparated ((first :: second :: others).map form) =
          form first ++ ',' :: commaSeparated ((second :: others).map form) := rfl
      rw [split, ih, furtherMembers, furtherMembers, List.flatMap_cons, List.cons_append]

theorem length_le_furtherMembers (form : α → List Char) (members : List α) :
    members.length ≤ (furtherMembers form members).length := by
  induction members with
  | nil => exact Nat.le_refl 0
  | cons first others ih =>
      simp only [furtherMembers, List.flatMap_cons, List.length_append, List.length_cons] at ih ⊢
      omega

/-- The form of a member does not begin with a blank or with the bracket that would end the
list. -/
structure Begins (form : α → List Char) : Prop where
  solid : ∀ value rest, skipBlanks (form value ++ rest) = form value ++ rest
  opening : ∀ value rest others, form value ++ rest ≠ ']' :: others

theorem begins_quote {name : α → String} : Begins fun value => quote (name value) where
  solid _ _ := rfl
  opening _ _ _ equal := absurd (List.cons.inj equal).1 (by decide)

/-! ## Telling members apart -/

section Telling

variable {form : α → List Char} {same : α → α → Prop}

/-- Equal texts that begin with forms have the same values in front, up to the relation, and the
same rests. -/
def Telling (form : α → List Char) (same : α → α → Prop) : Prop :=
  ∀ ⦃left right rest others⦄, form left ++ rest = form right ++ others →
    same left right ∧ rest = others

/-- Further members end where the bracket stands. -/
theorem Telling.furtherMembers_inj (telling : Telling form same) {rest others : List Char} :
    ∀ {left right : List α},
      furtherMembers form left ++ ']' :: rest = furtherMembers form right ++ ']' :: others →
        List.Forall₂ same left right ∧ rest = others
  | [], [], equal => ⟨.nil, (List.cons.inj equal).2⟩
  | [], _ :: _, equal => absurd (List.cons.inj equal).1 (by decide)
  | _ :: _, [], equal => absurd (List.cons.inj equal).1 (by decide)
  | first :: left, second :: right, equal => by
      rw [furtherMembers, furtherMembers, List.flatMap_cons, List.flatMap_cons, List.cons_append,
        List.cons_append, List.cons_append, List.cons_append, List.append_assoc,
        List.append_assoc] at equal
      obtain ⟨sameFirst, behind⟩ := telling (List.cons.inj equal).2
      obtain ⟨sameOthers, sameRest⟩ := telling.furtherMembers_inj behind
      exact ⟨.cons sameFirst sameOthers, sameRest⟩

/-- The array of a list of members. -/
def bracketed (form : α → List Char) (members : List α) : List Char :=
  '[' :: commaSeparated (members.map form) ++ [']']

theorem bracketed_nil_append (form : α → List Char) (rest : List Char) :
    bracketed form [] ++ rest = '[' :: ']' :: rest := rfl

theorem bracketed_cons_append (form : α → List Char) (first : α) (others : List α)
    (rest : List Char) :
    bracketed form (first :: others) ++ rest =
      '[' :: (form first ++ (furtherMembers form others ++ ']' :: rest)) := by
  simp only [bracketed, commaSeparated_cons, List.cons_append, List.append_assoc, List.nil_append]

/-- **Arrays of members that can be told apart can be told apart.** If a member could begin with
the closing bracket, an empty array might be taken for one with members. -/
theorem Telling.bracketed (begins : Begins form) (telling : Telling form same) :
    Telling (Json.bracketed form) (List.Forall₂ same) := by
  intro left right rest others equal
  cases left with
  | nil =>
      cases right with
      | nil => exact ⟨.nil, (List.cons.inj (List.cons.inj equal).2).2⟩
      | cons second right =>
          rw [bracketed_nil_append, bracketed_cons_append] at equal
          exact absurd (List.cons.inj equal).2.symm (begins.opening _ _ _)
  | cons first left =>
      cases right with
      | nil =>
          rw [bracketed_nil_append, bracketed_cons_append] at equal
          exact absurd (List.cons.inj equal).2 (begins.opening _ _ _)
      | cons second right =>
          rw [bracketed_cons_append, bracketed_cons_append] at equal
          obtain ⟨sameFirst, behind⟩ := telling (List.cons.inj equal).2
          obtain ⟨sameOthers, sameRest⟩ := telling.furtherMembers_inj behind
          exact ⟨.cons sameFirst sameOthers, sameRest⟩

end Telling

/-! ## Reading members -/

section Reading

variable {member : JsonReader α} {form : α → List Char}

theorem readMembers_form (begins : Begins form) (takes : ∀ value, Takes member (form value) value)
    {bound : Nat} {others : List α} (enough : others.length < bound) (first : α)
    (rest : List Char) :
    readMembers ']' member bound (form first ++ (furtherMembers form others ++ ']' :: rest)) =
      .ok (first :: others, rest) := by
  induction others generalizing bound first with
  | nil =>
      obtain ⟨bound, rfl⟩ := Nat.exists_eq_add_one_of_ne_zero (Nat.ne_of_gt enough)
      simp only [readMembers, takes first _, bind, Except.bind]
      rfl
  | cons second others ih =>
      obtain ⟨bound, rfl⟩ := Nat.exists_eq_add_one_of_ne_zero (Nat.ne_zero_of_lt enough)
      have more : furtherMembers form (second :: others) ++ ']' :: rest =
          ',' :: (form second ++ (furtherMembers form others ++ ']' :: rest)) := by
        simp only [furtherMembers, List.flatMap_cons, List.cons_append, List.append_assoc]
      have blank : skipBlanks (',' :: (form second ++ (furtherMembers form others ++ ']' :: rest)))
          = ',' :: (form second ++ (furtherMembers form others ++ ']' :: rest)) := rfl
      have read := ih (Nat.lt_of_succ_lt_succ enough) second
      simp only [readMembers, more, takes first _, bind, Except.bind, blank, begins.solid, read]
      rfl

/-- **A list is read back from its members with commas between them.** -/
theorem readOptionalMembers_commaSeparated (begins : Begins form)
    (takes : ∀ value, Takes member (form value) value) (members : List α) (rest : List Char) :
    readOptionalMembers ']' member (commaSeparated (members.map form) ++ ']' :: rest) =
      .ok (members, rest) := by
  cases members with
  | nil => rfl
  | cons first others =>
      rw [commaSeparated_cons, List.append_assoc, readOptionalMembers, begins.solid]
      have enough : others.length <
          (form first ++ (furtherMembers form others ++ ']' :: rest)).length := by
        have each := length_le_furtherMembers form others
        simp only [List.length_append, List.length_cons]
        omega
      have read := readMembers_form begins takes enough first rest
      generalize text : form first ++ (furtherMembers form others ++ ']' :: rest) = written at read
      cases written with
      | nil => exact absurd enough (by rw [text]; exact Nat.not_lt_zero _)
      | cons opening tail =>
          have noBracket : opening ≠ ']' := by
            rintro rfl
            exact begins.opening _ _ _ text
          exact (if_neg noBracket).trans read

end Reading

end Json

end FirstPaint
