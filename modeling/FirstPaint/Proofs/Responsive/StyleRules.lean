import FirstPaint.Responsive.Move
import Mathlib.Tactic.ByContra

/-!
# The rules of a style

The rules for an element are written one after another. Each is a declaration for what a selector
selects, and most of them stand under media queries (`StyleRule`). A style asks for a list of such
rules, and what is written is this list and nothing else (`ResponsiveStyle.rules_eq_flatMap`), so
what is to be said of rules can be said of them one by one. What is written for all attributes of
an element is the rules of all of them, and each has one of two selectors, both made of the id of
the element (`AnchoredRules`).
-/

set_option autoImplicit false

namespace FirstPaint

/-- A declaration for the elements that a selector selects. -/
structure StyleRule where
  /-- The media queries under which the rule applies, if there are any. -/
  media? : Option (List Char)
  /-- What the rule applies to. -/
  selector : List Char
  /-- What is declared. -/
  declaration : List Char
deriving DecidableEq, Repr

/-- A rule as it is written. -/
def StyleRule.text (rule : StyleRule) : List Char :=
  match rule.media? with
  | none => rule.selector ++ '{' :: rule.declaration ++ "\x7d;".toList
  | some media =>
    "@media ".toList ++ media ++ '{' :: rule.selector ++ '{' :: rule.declaration ++
      ";\x7d\x7d".toList

/-- The rules of a list of sizes: one for the default, and one for each condition. -/
def SizeList.styleRules (list : SizeList) (selector property : List Char) : List StyleRule :=
  ⟨none, selector, property ++ ':' :: list.default⟩ ::
    list.conditional.map fun entry =>
      ⟨some entry.condition, selector, property ++ ':' :: entry.size⟩

theorem SizeList.rules_eq_flatMap (list : SizeList) (selector property : List Char) :
    list.rules selector property = (list.styleRules selector property).flatMap StyleRule.text := by
  simp [rules, styleRules, StyleRule.text, List.flatMap_map]

theorem SizeList.selector_of_mem_styleRules {list : SizeList} {selector property : List Char}
    {rule : StyleRule} (member : rule ∈ list.styleRules selector property) :
    rule.selector = selector := by
  rcases List.mem_cons.mp member with rfl | conditional
  · rfl
  · obtain ⟨entry, -, rfl⟩ := List.mem_map.mp conditional
    rfl

/-- What selects the element with an id. -/
def elementSelector (id : String) : List Char := '#' :: id.toList

/-- What selects the sizers in the element with an id. -/
def sizerSelector (id : String) : List Char := elementSelector id ++ '>' :: sizerTag.toList

namespace ResponsiveStyle

/-- The rules that a style asks for. -/
def styleRules (style : ResponsiveStyle) (id : String) : List StyleRule :=
  match style with
  | .nothing => []
  | .widths list => list.styleRules (elementSelector id) "width".toList
  | .heights list => list.styleRules (sizerSelector id) "height".toList
  | .hiddenOutside query =>
    [⟨some ("not ".toList ++ query), elementSelector id, "display:none".toList⟩]

/-- **What is written is the list of rules.** -/
theorem rules_eq_flatMap (style : ResponsiveStyle) (id : String) :
    style.rules id = (style.styleRules id).flatMap StyleRule.text := by
  cases style with
  | nothing => rfl
  | widths list => exact list.rules_eq_flatMap _ _
  | heights list => exact list.rules_eq_flatMap _ _
  | hiddenOutside query =>
      have negated : "@media not ".toList = "@media ".toList ++ "not ".toList := by decide
      have hidden : "display:none;".toList ++ ['}', '}'] =
          "display:none".toList ++ ";\x7d\x7d".toList := by decide
      change "@media not ".toList ++ query ++ '{' :: elementSelector id ++ '{' ::
          "display:none;".toList ++ ['}', '}'] = "@media ".toList ++ ("not ".toList ++ query) ++
            '{' :: elementSelector id ++ '{' :: "display:none".toList ++ ";\x7d\x7d".toList ++ []
      rw [negated, List.append_nil]
      simp only [List.append_assoc, List.cons_append, hidden]

theorem isNothing_iff {style : ResponsiveStyle} : style.isNothing = true ↔ style = .nothing := by
  cases style <;> simp [isNothing]

/-- A style that has an effect asks for a rule. -/
theorem styleRules_ne_nil {style : ResponsiveStyle} (something : style ≠ .nothing)
    (id : String) : style.styleRules id ≠ [] := by
  cases style with
  | nothing => exact absurd rfl something
  | widths list => exact List.cons_ne_nil _ _
  | heights list => exact List.cons_ne_nil _ _
  | hiddenOutside query => exact List.cons_ne_nil _ _

/-- Rules apply to the element, or to the sizers in it. -/
theorem selector_of_mem_styleRules {style : ResponsiveStyle} {id : String} {rule : StyleRule}
    (member : rule ∈ style.styleRules id) :
    rule.selector = elementSelector id ∨ rule.selector = sizerSelector id := by
  cases style with
  | nothing => exact absurd member List.not_mem_nil
  | widths list => exact .inl (SizeList.selector_of_mem_styleRules member)
  | heights list => exact .inr (SizeList.selector_of_mem_styleRules member)
  | hiddenOutside query => exact .inl (congrArg StyleRule.selector (List.mem_singleton.mp member))

end ResponsiveStyle

/-! ## The rules of an element -/

/-- The text is the rules that the styles ask for, one after another, and each rule applies to the
element with the id, or to the sizers in it. -/
structure AnchoredRules (styles : List ResponsiveStyle) (id : String) (rules : List StyleRule)
    (css : String) : Prop where
  asked : rules = styles.flatMap (·.styleRules id)
  written : css = String.ofList (rules.flatMap StyleRule.text)
  addressed : ∀ rule ∈ rules, rule.selector = elementSelector id ∨ rule.selector = sizerSelector id

section Anchored

variable {styles : List ResponsiveStyle} {found : List FoundStyle} {id css : String}
  {rules : List StyleRule}

theorem all_isNothing_iff :
    found.all (·.style.isNothing) = true ↔ ∀ style ∈ found.map (·.style), style = .nothing := by
  simp [ResponsiveStyle.isNothing_iff]

theorem exists_ne_nothing (something : found.all (·.style.isNothing) = false) :
    ∃ style ∈ found.map (·.style), style ≠ .nothing := by
  by_contra! nothing
  exact absurd (all_isNothing_iff.mpr nothing) (by simp [something])

/-- Attributes that have been found are written as the rules of their styles. -/
theorem rulesFor_anchored (found : List FoundStyle) (id : String) :
    AnchoredRules (found.map (·.style)) id ((found.map (·.style)).flatMap (·.styleRules id))
      (rulesFor found id) where
  asked := rfl
  written := by
    simp only [rulesFor, ResponsiveStyle.rules_eq_flatMap, List.flatMap_assoc, List.flatMap_map]
  addressed rule listed := by
    obtain ⟨style, -, asked⟩ := List.mem_flatMap.mp listed
    exact ResponsiveStyle.selector_of_mem_styleRules asked

/-- Nothing else is written for them. -/
theorem AnchoredRules.eq_rulesFor (anchored : AnchoredRules (found.map (·.style)) id rules css) :
    css = rulesFor found id := by
  rw [anchored.written, anchored.asked, ← (rulesFor_anchored found id).written]

/-- There is a rule where a style has an effect. -/
theorem AnchoredRules.ne_nil (anchored : AnchoredRules styles id rules css)
    (something : ∃ style ∈ styles, style ≠ .nothing) : rules ≠ [] := by
  obtain ⟨style, member, something⟩ := something
  rw [anchored.asked, Ne, List.flatMap_eq_nil_iff]
  exact fun none => ResponsiveStyle.styleRules_ne_nil something id (none style member)

end Anchored

end FirstPaint
