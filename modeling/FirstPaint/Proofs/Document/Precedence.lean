import Mathlib.Data.List.Flatten
import Mathlib.Data.List.Nodup

/-!
# Which of two members comes first

One member of a list stands ahead of another if the list of both is a sublist. In a list
without repetitions this is an order of its members (`pair_sublist_or`,
`not_pair_sublist_swap`). A sublist keeps it, and in a list that is put together from parts one
member stands ahead of another within a part, or because its part is ahead
(`pair_sublist_flatMap_iff`).

What is found first is the match that has no other match ahead of it
(`find?_eq_some_iff_pair`). So it is found first in every part of the list that still has it.
-/

set_option autoImplicit false

namespace FirstPaint

section Pairs

variable {α β : Type} {first second : α} {list : List α}

theorem fst_mem_of_pair_sublist (sublist : [first, second].Sublist list) : first ∈ list :=
  sublist.subset List.mem_cons_self

theorem snd_mem_of_pair_sublist (sublist : [first, second].Sublist list) : second ∈ list :=
  sublist.subset (List.mem_cons_of_mem first (List.mem_singleton_self second))

/-- Two members stand in one order or the other. -/
theorem pair_sublist_or (different : first ≠ second) (here : first ∈ list)
    (there : second ∈ list) : [first, second].Sublist list ∨ [second, first].Sublist list := by
  induction list with
  | nil => exact absurd here List.not_mem_nil
  | cons top rest ih =>
      rcases List.mem_cons.mp here with rfl | laterFirst
      · have later := (List.mem_cons.mp there).resolve_left different.symm
        exact .inl ((List.singleton_sublist.mpr later).cons_cons first)
      · rcases List.mem_cons.mp there with rfl | laterSecond
        · exact .inr ((List.singleton_sublist.mpr laterFirst).cons_cons second)
        · exact (ih laterFirst laterSecond).imp (·.cons top) (·.cons top)

/-- What is behind the top of a list is in the rest. -/
theorem mem_of_pair_sublist_cons {top : α} (sublist : [first, second].Sublist (top :: list)) :
    second ∈ list := by
  cases sublist with
  | cons _ inRest => exact snd_mem_of_pair_sublist inRest
  | cons_cons _ inRest => exact List.singleton_sublist.mp inRest

/-- Members of a list without repetitions do not stand in both orders. -/
theorem not_pair_sublist_swap (distinct : list.Nodup) (sublist : [first, second].Sublist list) :
    ¬ [second, first].Sublist list := by
  induction list with
  | nil => exact absurd sublist (by simp)
  | cons top rest ih =>
      obtain ⟨apart, others⟩ := List.nodup_cons.mp distinct
      intro swapped
      have firstLater := mem_of_pair_sublist_cons swapped
      have secondLater := mem_of_pair_sublist_cons sublist
      cases sublist with
      | cons_cons => exact apart firstLater
      | cons _ inRest =>
          cases swapped with
          | cons_cons => exact apart secondLater
          | cons _ swappedInRest => exact ih others inRest swappedInRest

/-- In a list of parts, one member stands ahead of another in one part, or in a part ahead. -/
theorem pair_sublist_flatMap_iff {parts : List β} {members : β → List α} :
    [first, second].Sublist (parts.flatMap members) ↔
      (∃ part ∈ parts, [first, second].Sublist (members part)) ∨
        ∃ ahead behind, [ahead, behind].Sublist parts ∧ first ∈ members ahead ∧
          second ∈ members behind := by
  constructor
  · intro sublist
    induction parts with
    | nil => exact absurd sublist (by simp)
    | cons top rest ih =>
        rw [List.flatMap_cons] at sublist
        obtain ⟨front, back, split, inTop, inRest⟩ := List.sublist_append_iff.mp sublist
        rcases front with _ | ⟨front, _ | ⟨middle, others⟩⟩
        · rw [List.nil_append] at split
          rw [← split] at inRest
          rcases ih inRest with ⟨part, member, within⟩ | ⟨ahead, behind, parts, rest⟩
          · exact .inl ⟨part, List.mem_cons_of_mem top member, within⟩
          · exact .inr ⟨ahead, behind, parts.cons top, rest⟩
        · obtain ⟨rfl, rfl⟩ : first = front ∧ back = [second] := by simpa [eq_comm] using split
          obtain ⟨part, member, within⟩ := List.mem_flatMap.mp (List.singleton_sublist.mp inRest)
          exact .inr ⟨top, part, (List.singleton_sublist.mpr member).cons_cons top,
            List.singleton_sublist.mp inTop, within⟩
        · obtain ⟨rfl, rfl, rfl, rfl⟩ :
              first = front ∧ second = middle ∧ others = [] ∧ back = [] := by
            simpa [eq_comm] using split
          exact .inl ⟨top, List.mem_cons_self, inTop⟩
  · rintro (⟨part, member, within⟩ | ⟨ahead, behind, inOrder, firstIn, secondIn⟩)
    · have single := (List.singleton_sublist.mpr member).flatMap members
      rw [List.flatMap_singleton] at single
      exact within.trans single
    · refine List.Sublist.trans ?_ (inOrder.flatMap members)
      rw [List.flatMap_cons, List.flatMap_singleton]
      exact (List.singleton_sublist.mpr firstIn).append (List.singleton_sublist.mpr secondIn)

/-- What is found first is the match that has no other match ahead of it. -/
theorem find?_eq_some_iff_pair (distinct : list.Nodup) {condition : α → Bool} :
    list.find? condition = some first ↔ condition first = true ∧ first ∈ list ∧
      ∀ other, [other, first].Sublist list → condition other = false := by
  induction list with
  | nil => simp
  | cons top rest ih =>
      obtain ⟨apart, others⟩ := List.nodup_cons.mp distinct
      cases matched : condition top with
      | true =>
          rw [List.find?_cons_of_pos matched, Option.some_inj]
          constructor
          · rintro rfl
            refine ⟨matched, List.mem_cons_self, fun other sublist => ?_⟩
            exact absurd (mem_of_pair_sublist_cons sublist) apart
          · rintro ⟨-, member, none⟩
            rcases List.mem_cons.mp member with same | later
            · exact same.symm
            · have clash := none top ((List.singleton_sublist.mpr later).cons_cons top)
              exact absurd (matched.symm.trans clash) (by simp)
      | false =>
          rw [List.find?_cons_of_neg (by simp [matched]), ih others]
          refine and_congr_right fun holds => ?_
          have different : first ≠ top := by
            rintro rfl
            exact absurd (holds.symm.trans matched) (by simp)
          rw [List.mem_cons, or_iff_right different]
          refine and_congr_right fun _ => ?_
          constructor
          · intro none other sublist
            cases sublist with
            | cons _ inRest => exact none other inRest
            | cons_cons => exact matched
          · exact fun none other inRest => none other (inRest.cons top)

/-- What is found first in a list is found first in a part of it that has it. -/
theorem find?_of_sublist {part : List α} (sublist : part.Sublist list) (distinct : list.Nodup)
    {condition : α → Bool} (found : list.find? condition = some first) (member : first ∈ part) :
    part.find? condition = some first := by
  obtain ⟨holds, -, none⟩ := (find?_eq_some_iff_pair distinct).mp found
  refine (find?_eq_some_iff_pair (distinct.sublist sublist)).mpr ⟨holds, member, ?_⟩
  exact fun other ahead => none other (ahead.trans sublist)

end Pairs

end FirstPaint
