import FirstPaint.Text.Ascii
import Mathlib.Data.List.Forall2

/-!
# Letters in upper and lower case

Names are compared in lower case, and lower case is a matter of the letters A to Z: each of them
is moved by 32, and no other character is touched. So a text is in lower case exactly if none of
these letters is in it (`Ascii.lower_eq_self_iff`), and two texts are the same in lower case
exactly if they have the same letters at the same places, in either case (`Ascii.Respells`).
-/

set_option autoImplicit false

namespace FirstPaint

namespace Ascii

/-- One of the letters A to Z. -/
def IsCapital (character : Char) : Prop := 'A' ≤ character ∧ character ≤ 'Z'

/-- The characters are the same, or upper and lower case of one letter. -/
inductive SameLetter : Char → Char → Prop where
  | same (character : Char) : SameLetter character character
  | fromCapital {capital small : Char} (isCapital : IsCapital capital)
      (moved : small.toNat = capital.toNat + 32) : SameLetter capital small
  | toCapital {capital small : Char} (isCapital : IsCapital capital)
      (moved : small.toNat = capital.toNat + 32) : SameLetter small capital

/-- The texts have the same letters at the same places, in upper or lower case. -/
def Respells (left right : String) : Prop := List.Forall₂ SameLetter left.toList right.toList

/-! ## Characters -/

section Characters

variable {character left right : Char}

theorem isCapital_iff : IsCapital character ↔ 65 ≤ character.toNat ∧ character.toNat ≤ 90 :=
  Iff.rfl

theorem toNat_toLower_of_isCapital (isCapital : IsCapital character) :
    character.toLower.toNat = character.toNat + 32 := by
  have moved : character.toLower.val = character.val + ('a'.val - 'A'.val) :=
    congrArg Char.val (dif_pos isCapital)
  have distance : ('a'.val - 'A'.val).toNat = 32 := by decide
  have bounds := isCapital_iff.mp isCapital
  rw [← Char.toNat_val] at bounds
  rw [← Char.toNat_val, ← Char.toNat_val, moved, UInt32.toNat_add, distance]
  omega

theorem toLower_of_not_isCapital (other : ¬ IsCapital character) :
    character.toLower = character :=
  dif_neg other

theorem not_isCapital_toLower (character : Char) : ¬ IsCapital character.toLower := by
  by_cases isCapital : IsCapital character
  · have moved := toNat_toLower_of_isCapital isCapital
    rw [isCapital_iff] at isCapital ⊢
    omega
  · rwa [toLower_of_not_isCapital isCapital]

theorem toLower_eq_self_iff : character.toLower = character ↔ ¬ IsCapital character :=
  ⟨fun same => same ▸ not_isCapital_toLower character, toLower_of_not_isCapital⟩

theorem toLower_eq_toLower_iff : left.toLower = right.toLower ↔ SameLetter left right := by
  constructor
  · intro same
    by_cases leftCapital : IsCapital left
    · have leftMoved := toNat_toLower_of_isCapital leftCapital
      by_cases rightCapital : IsCapital right
      · have rightMoved := toNat_toLower_of_isCapital rightCapital
        have alike : left = right := Char.toNat_inj.mp (by rw [same] at leftMoved; omega)
        exact alike ▸ .same left
      · rw [same, toLower_of_not_isCapital rightCapital] at leftMoved
        exact .fromCapital leftCapital leftMoved
    · rw [toLower_of_not_isCapital leftCapital] at same
      subst same
      by_cases rightCapital : IsCapital right
      · exact .toCapital rightCapital (toNat_toLower_of_isCapital rightCapital)
      · rw [toLower_of_not_isCapital rightCapital]
        exact .same right
  · -- What stands for a capital letter is none itself, so it is its own lower case.
    have capital : ∀ {capital small : Char}, IsCapital capital →
        small.toNat = capital.toNat + 32 → capital.toLower = small.toLower := by
      intro capital small isCapital moved
      have lowered : capital.toLower = small :=
        Char.toNat_inj.mp ((toNat_toLower_of_isCapital isCapital).trans moved.symm)
      rw [← lowered, toLower_of_not_isCapital (not_isCapital_toLower capital)]
    rintro (_ | ⟨isCapital, moved⟩ | ⟨isCapital, moved⟩)
    · rfl
    · exact capital isCapital moved
    · exact (capital isCapital moved).symm

end Characters

/-! ## Texts -/

section Texts

variable {text left right : String}

theorem toList_lower (text : String) : (lower text).toList = text.toList.map Char.toLower :=
  String.toList_map

/-- A text is in lower case if none of the letters A to Z is in it. -/
theorem lower_eq_self_iff :
    lower text = text ↔ ∀ character ∈ text.toList, ¬ IsCapital character := by
  have fixed := List.map_eq_map_iff (f := Char.toLower) (g := id) (l := text.toList)
  rw [← String.toList_inj, toList_lower]
  simpa only [List.map_id, id, toLower_eq_self_iff] using fixed

/-- Texts are the same in lower case if one is a respelling of the other. -/
theorem lower_eq_lower_iff : lower left = lower right ↔ Respells left right := by
  rw [← String.toList_inj, toList_lower, toList_lower, Respells, ← List.forall₂_eq_eq_eq,
    List.forall₂_map_left_iff, List.forall₂_map_right_iff]
  simp only [toLower_eq_toLower_iff]

theorem sameName_iff : sameName left right = true ↔ Respells left right :=
  beq_iff_eq.trans lower_eq_lower_iff

@[simp]
theorem lower_lower (text : String) : lower (lower text) = lower text := by
  refine lower_eq_self_iff.mpr fun character member => ?_
  rw [toList_lower] at member
  obtain ⟨original, -, rfl⟩ := List.mem_map.mp member
  exact not_isCapital_toLower original

end Texts

end Ascii

end FirstPaint
