import FirstPaint.Report.Finding
import FirstPaint.Proofs.Json.Members

/-!
# What the published form of a report carries

A finding is published without its element. Everything else can be read off the text: the kind
with its cause, whether there is a snippet and which, and the message (`Finding.SamePublished`).
The constant parts of a finding stand between string literals, and a literal ends where it says
itself, so each field is told from what stands behind it (`Finding.telling_toJson`); the list is
then told from its array.
-/

set_option autoImplicit false

namespace FirstPaint

open Json (Telling)

/-! ## Kinds -/

theorem BoilerplateNeed.name_injective : Function.Injective BoilerplateNeed.name := by
  intro first second same
  cases first <;> cases second <;> simp [name] at same ⊢

theorem RenderingProblem.name_injective : Function.Injective RenderingProblem.name := by
  intro first second same
  cases first <;> cases second <;> simp [name] at same ⊢

namespace FindingKind

/-- The names of category and cause identify a kind. The name of the cause alone does not: both
categories have a cause of the name `unsupported-layout`. -/
theorem eq_of_names {first second : FindingKind} (sameCategory : first.category = second.category)
    (sameCause : first.cause = second.cause) : first = second := by
  cases first with
  | boilerplateStays need =>
      cases second with
      | boilerplateStays other => exact congrArg boilerplateStays (need.name_injective sameCause)
      | notRendered problem => simp [category] at sameCategory
  | notRendered problem =>
      cases second with
      | boilerplateStays need => simp [category] at sameCategory
      | notRendered other => exact congrArg notRendered (problem.name_injective sameCause)

theorem telling_toJson : Telling toJson Eq := by
  intro left right rest others equal
  unfold toJson at equal
  simp only [List.append_assoc, List.append_right_inj] at equal
  obtain ⟨sameCategory, behind⟩ := Json.quote_append_inj equal
  obtain ⟨sameCause, closing⟩ := Json.quote_append_inj ((List.append_right_inj _).mp behind)
  exact ⟨eq_of_names sameCategory sameCause, (List.append_right_inj _).mp closing⟩

end FindingKind

/-! ## Findings -/

/-- How a snippet is written: null stands for its absence. -/
def optionalJson (snippet? : Option String) : List Char :=
  (snippet?.map Json.quote).getD "null".toList

/-- A literal begins with a quotation mark, so none is taken for null. -/
theorem telling_optionalJson : Telling optionalJson Eq := by
  intro left right rest others equal
  cases left with
  | none =>
      cases right with
      | none => exact ⟨rfl, List.append_cancel_left equal⟩
      | some text => exact absurd (List.cons.inj equal).1 (by decide)
  | some text =>
      cases right with
      | none => exact absurd (List.cons.inj equal).1 (by decide)
      | some other =>
          obtain ⟨sameText, behind⟩ := Json.quote_append_inj equal
          exact ⟨congrArg some sameText, behind⟩

namespace Finding

/-- Two findings that agree in everything but the element. -/
structure SamePublished (first second : Finding) : Prop where
  /-- They are of one kind, with one cause. -/
  kind : first.kind = second.kind
  /-- Neither has a snippet, or both have the same one. -/
  snippet? : first.snippet? = second.snippet?
  /-- They have one message. -/
  message : first.message = second.message

theorem SamePublished.toJson_eq {first second : Finding} (same : SamePublished first second) :
    first.toJson = second.toJson := by
  unfold toJson
  rw [same.kind, same.snippet?, same.message]

theorem begins_toJson : Json.Begins toJson where
  solid _ _ := rfl
  opening _ _ _ equal := absurd (List.cons.inj equal).1 (by decide)

theorem telling_toJson : Telling toJson SamePublished := by
  intro left right rest others equal
  unfold toJson at equal
  simp only [List.append_assoc, List.append_right_inj] at equal
  obtain ⟨sameKind, afterKind⟩ := FindingKind.telling_toJson equal
  obtain ⟨sameSnippet, afterSnippet⟩ :=
    telling_optionalJson ((List.append_right_inj _).mp afterKind)
  obtain ⟨sameMessage, closing⟩ :=
    Json.quote_append_inj ((List.append_right_inj _).mp afterSnippet)
  exact ⟨⟨sameKind, sameSnippet, sameMessage⟩, (List.append_right_inj _).mp closing⟩

end Finding

/-! ## Reports -/

/-- **A published report loses nothing but the elements.** Two reports have the same published
form exactly if they have equally many findings, and findings at the same place agree in kind,
snippet and message. -/
theorem Report.toJson_eq_iff (first second : Report) :
    first.toJson = second.toJson ↔
      List.Forall₂ Finding.SamePublished first.toList second.toList := by
  constructor
  · intro equal
    have arrays : Json.bracketed Finding.toJson first.toList ++ [] =
        Json.bracketed Finding.toJson second.toList ++ [] := congrArg (· ++ []) equal
    exact (Finding.telling_toJson.bracketed Finding.begins_toJson arrays).1
  · intro same
    have members : first.toList.map Finding.toJson = second.toList.map Finding.toJson :=
      List.forall₂_eq_eq_eq ▸ (List.forall₂_map_left_iff.mpr <| List.forall₂_map_right_iff.mpr <|
        same.imp fun _ _ => Finding.SamePublished.toJson_eq)
    rw [Report.toJson, Report.toJson, members]

end FirstPaint
