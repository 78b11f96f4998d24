import FirstPaint.Proofs.Markup.Delimiters
import Mathlib.Data.List.Chain

/-!
# Fragments that their markup gives back

Not every fragment can be read back from its markup: adjacent texts run together, an
empty text leaves no trace, a comment may hold the sign that ends it. A fragment in which
nothing of that kind occurs is `Serializable`, and two of them with the same markup are
the same.

The proof is by induction on the left fragment. The first characters of a piece of markup
say what it is (`Opening`), and each kind of piece ends in its own way. Only a text needs
to know what follows it: it ends where something else begins, so the statement for one
fragment (`Fragment.Cancels`) asks that a text is not followed by a text. In a list of
siblings that is so, because no two texts are adjacent and because behind the last sibling
stands an end tag or nothing.
-/

set_option autoImplicit false

namespace FirstPaint

/-! ## What a piece of markup begins with -/

/-- What can stand at the beginning of markup: a piece of one of four kinds, or the end
of what surrounds it. -/
inductive Opening where
  | text
  | element
  | comment
  | cdata
  | closing
deriving DecidableEq, Repr

/-- What begins with the first characters. -/
def Opening.of : List Char → Opening
  | [] => .closing
  | '<' :: '/' :: _ => .closing
  | '<' :: '!' :: '-' :: _ => .comment
  | '<' :: '!' :: _ => .cdata
  | '<' :: _ => .element
  | _ :: _ => .text

theorem Opening.of_lower {first : Char} (lower : first.isLower = true) (rest : List Char) :
    Opening.of ('<' :: first :: rest) = .element := by
  have notSlash : first ≠ '/' := by
    rintro rfl
    exact absurd lower (by decide)
  have notMark : first ≠ '!' := by
    rintro rfl
    exact absurd lower (by decide)
  simp [Opening.of, notSlash, notMark]

theorem Opening.of_ne_less {first : Char} (plain : first ≠ '<') (rest : List Char) :
    Opening.of (first :: rest) = .text := by
  unfold Opening.of
  split <;> simp_all

/-- A text ends where no text begins. -/
theorem Opening.stopsRun {rest : List Char} (noText : Opening.of rest ≠ .text) :
    StopsRun (· != '<') rest := by
  cases rest with
  | nil => exact fun next first => absurd first (by simp)
  | cons first rest =>
      refine stopsRun_cons rest (bne_eq_false_iff_eq.mpr ?_)
      by_contra plain
      exact noText (Opening.of_ne_less plain rest)

namespace Fragment

/-- What a fragment begins with. -/
def opening : Fragment → Opening
  | .document _ => .closing
  | .element _ _ => .element
  | .text _ => .text
  | .comment _ => .comment
  | .cdata _ => .cdata

/-! ## Fragments that can be read back -/

/-- No two texts are adjacent. -/
def Separated (parts : List Fragment) : Prop :=
  parts.IsChain fun left right => ¬ (left.opening = .text ∧ right.opening = .text)

/-- A part of a document whose markup can be read back. -/
inductive Serializable : Fragment → Prop where
  | element {holder : Element} {parts : List Fragment} (named : holder.Named)
      (serializable : ∀ part ∈ parts, Serializable part)
      (separated : Separated parts)
      (void : voidTags.contains holder.tag = true → parts = [])
      (raw : holder.holdsRawText = true → parts.length ≤ 1 ∧ ∀ part ∈ parts,
        ∃ data, part = .text data ∧ ¬ "</".toList <:+: data.toList) :
      Serializable (.element holder parts)
  | text {data : String} (filled : data ≠ "") : Serializable (.text data)
  | comment {data : String} (inside : ¬ "-->".toList <:+: data.toList) :
      Serializable (.comment data)
  | cdata {data : String} (inside : ¬ "]]>".toList <:+: data.toList) : Serializable (.cdata data)

/-! ## The equations of writing, with what follows -/

section Equations

variable (raw : Bool) (data : String) (rest : List Char)

theorem markupAll_nil : markupAll raw [] = [] := rfl

theorem markupAll_cons (first : Fragment) (siblings : List Fragment) :
    markupAll raw (first :: siblings) = first.markup raw ++ markupAll raw siblings := rfl

theorem markup_element (holder : Element) (parts : List Fragment) :
    (element holder parts).markup raw =
      if voidTags.contains holder.tag then holder.startTag
      else holder.startTag ++ markupAll holder.holdsRawText parts ++ holder.endTag := rfl

theorem markup_element_append (holder : Element) (parts : List Fragment) :
    (element holder parts).markup raw ++ rest = holder.startTag ++
      if voidTags.contains holder.tag then rest
      else markupAll holder.holdsRawText parts ++ (holder.endTag ++ rest) := by
  rw [markup_element]
  split
  next => rfl
  next => rw [List.append_assoc, List.append_assoc]

theorem markup_text : (text data).markup false = EscapeContext.content.escape data.toList := rfl

theorem markup_rawText : (text data).markup true = data.toList := rfl

theorem markup_comment_append : (comment data).markup raw ++ rest =
    ['<', '!', '-', '-'] ++ (data.toList ++ (['-', '-'] ++ '>' :: rest)) := by
  have written : (comment data).markup raw = "<!--".toList ++ data.toList ++ "-->".toList := rfl
  simp [written]

theorem markup_cdata_append : (cdata data).markup raw ++ rest =
    "<![CDATA[".toList ++ (data.toList ++ ([']', ']'] ++ '>' :: rest)) := by
  have written : (cdata data).markup raw = "<![CDATA[".toList ++ data.toList ++ "]]>".toList := rfl
  simp [written]

end Equations

theorem Serializable.opening_of {fragment : Fragment} (serializable : fragment.Serializable)
    (rest : List Char) : Opening.of (fragment.markup false ++ rest) = fragment.opening := by
  cases serializable with
  | @element holder parts named _ _ _ _ =>
      obtain ⟨first, more, split, lower⟩ := named.exists_lower
      rw [markup_element_append, Element.startTag_append, split]
      exact Opening.of_lower lower _
  | @text data filled =>
      cases split : data.toList with
      | nil => exact absurd (String.toList_eq_nil_iff.mp split) filled
      | cons first more =>
          have noLess := EscapeContext.less_not_mem_escape (first :: more)
          rw [markup_text, split]
          cases written : EscapeContext.content.escape (first :: more) with
          | nil =>
              have empty := (List.append_eq_nil_iff.mp written).1
              exact absurd empty (EscapeContext.content.escapeChar_ne_nil first)
          | cons mark behind =>
              rw [written] at noLess
              exact Opening.of_ne_less (Ne.symm (List.ne_of_not_mem_cons noLess)) _
  | comment _ =>
      rw [markup_comment_append]
      rfl
  | cdata _ =>
      rw [markup_cdata_append]
      rfl

/-! ## Fragments give themselves back -/

/-- A serializable fragment with the same markup, whatever follows either of them, is the
same fragment. What follows a text is no text. -/
def Cancels (left : Fragment) : Prop :=
  ∀ {right : Fragment} {rest others : List Char}, right.Serializable →
    (left.opening = .text → Opening.of rest ≠ .text) →
    (right.opening = .text → Opening.of others ≠ .text) →
    left.markup false ++ rest = right.markup false ++ others → left = right ∧ rest = others

/-- What follows the first of several siblings is no text if the first one is. -/
theorem opening_of_siblings {first : Fragment} {siblings : List Fragment} {rest : List Char}
    (serializable : ∀ part ∈ siblings, Serializable part)
    (separated : Separated (first :: siblings))
    (closing : Opening.of rest = .closing) (isText : first.opening = .text) :
    Opening.of (markupAll false siblings ++ rest) ≠ .text := by
  cases siblings with
  | nil =>
      rw [markupAll_nil, List.nil_append, closing]
      decide
  | cons second siblings =>
      rw [markupAll_cons, List.append_assoc, (serializable second List.mem_cons_self).opening_of]
      exact fun alsoText => (List.isChain_cons_cons.mp separated).1 ⟨isText, alsoText⟩

/-- Siblings give themselves back if each of them does. -/
theorem markupAll_append_inj {lefts rights : List Fragment} {rest others : List Char}
    (cancels : ∀ part ∈ lefts, Cancels part)
    (leftSerializable : ∀ part ∈ lefts, Serializable part)
    (rightSerializable : ∀ part ∈ rights, Serializable part)
    (leftSeparated : Separated lefts) (rightSeparated : Separated rights)
    (restCloses : Opening.of rest = .closing) (othersClose : Opening.of others = .closing)
    (same : markupAll false lefts ++ rest = markupAll false rights ++ others) :
    lefts = rights ∧ rest = others := by
  have goesOn : ∀ {first : Fragment}, first.Serializable → first.opening ≠ .closing := by
    intro first serializable
    cases serializable <;> exact fun same => nomatch same
  induction lefts generalizing rights with
  | nil =>
      cases rights with
      | nil => exact ⟨rfl, same⟩
      | cons second rights =>
          have serializable := rightSerializable second List.mem_cons_self
          rw [markupAll_nil, markupAll_cons, List.append_assoc, List.nil_append] at same
          rw [same, serializable.opening_of] at restCloses
          exact absurd restCloses (goesOn serializable)
  | cons first lefts ih =>
      cases rights with
      | nil =>
          have serializable := leftSerializable first List.mem_cons_self
          rw [markupAll_nil, markupAll_cons, List.append_assoc, List.nil_append] at same
          rw [← same, serializable.opening_of] at othersClose
          exact absurd othersClose (goesOn serializable)
      | cons second rights =>
          rw [markupAll_cons, markupAll_cons, List.append_assoc, List.append_assoc] at same
          rw [List.forall_mem_cons] at cancels leftSerializable rightSerializable
          obtain ⟨rfl, behind⟩ := cancels.1 rightSerializable.1
            (opening_of_siblings leftSerializable.2 leftSeparated restCloses)
            (opening_of_siblings rightSerializable.2 rightSeparated othersClose) same
          obtain ⟨rfl, ends⟩ := ih cancels.2 leftSerializable.2 rightSerializable.2
            (List.IsChain.tail leftSeparated) (List.IsChain.tail rightSeparated) behind
          exact ⟨rfl, ends⟩

/-- The parts of an element that holds raw text: a text, unless it is empty. -/
def rawParts (data : String) : List Fragment := if data = "" then [] else [.text data]

theorem markupAll_rawParts (data : String) : markupAll true (rawParts data) = data.toList := by
  unfold rawParts
  split
  next empty =>
    rw [empty]
    rfl
  next => rw [markupAll_cons, markupAll_nil, markup_rawText, List.append_nil]

theorem exists_rawParts {parts : List Fragment} (serializable : ∀ part ∈ parts, Serializable part)
    (raw : parts.length ≤ 1 ∧ ∀ part ∈ parts,
      ∃ data, part = .text data ∧ ¬ "</".toList <:+: data.toList) :
    ∃ data, parts = rawParts data ∧ ¬ "</".toList <:+: data.toList := by
  match parts, raw with
  | [], _ => exact ⟨"", rfl, by decide⟩
  | [part], ⟨_, texts⟩ =>
      obtain ⟨data, rfl, free⟩ := texts part List.mem_cons_self
      refine ⟨data, ?_, free⟩
      cases serializable _ List.mem_cons_self with
      | text filled => rw [rawParts, if_neg filled]

/-- Raw text ends at the end tag of the element that holds it. -/
theorem rawParts_append_inj {left right : String} {holder : Element} {rest others : List Char}
    (leftFree : ¬ "</".toList <:+: left.toList) (rightFree : ¬ "</".toList <:+: right.toList)
    (same : left.toList ++ (holder.endTag ++ rest) = right.toList ++ (holder.endTag ++ others)) :
    rawParts left = rawParts right ∧ rest = others := by
  have once : '/' ∉ ['<'] := by decide
  obtain ⟨texts, behind⟩ := terminated_append_inj once leftFree rightFree same
  rw [String.toList_inj.mp texts]
  exact ⟨rfl, List.append_cancel_left behind⟩

/-- Two pieces of markup that agree are of one kind. -/
theorem Serializable.opening_eq {left right : Fragment} {rest others : List Char}
    (leftSerializable : left.Serializable) (rightSerializable : right.Serializable)
    (same : left.markup false ++ rest = right.markup false ++ others) :
    left.opening = right.opening := by
  rw [← leftSerializable.opening_of rest, same, rightSerializable.opening_of]

/-- An element ends with its start tag if it is void, and else with the end tag behind its
parts. -/
theorem cancels_element {holder : Element} {parts : List Fragment}
    (serializable : Serializable (.element holder parts))
    (cancels : ∀ part ∈ parts, Cancels part) : Cancels (.element holder parts) := by
  intro right rest others rightSerializable _ _ same
  have openings := serializable.opening_eq rightSerializable same
  cases serializable with
  | element named inner separated void raw =>
  cases rightSerializable with
  | @element other otherParts otherNamed otherInner otherSeparated otherVoid otherRaw =>
      rw [markup_element_append, markup_element_append] at same
      obtain ⟨rfl, behind⟩ := Element.startTag_append_inj named otherNamed same
      split at behind
      next isVoid =>
        rw [void isVoid, otherVoid isVoid]
        exact ⟨rfl, behind⟩
      next =>
        cases holdsRaw : holder.holdsRawText with
        | false =>
            rw [holdsRaw] at behind
            obtain ⟨rfl, ends⟩ := markupAll_append_inj cancels inner otherInner separated
              otherSeparated rfl rfl behind
            exact ⟨rfl, List.append_cancel_left ends⟩
        | true =>
            obtain ⟨data, rfl, free⟩ := exists_rawParts inner (raw holdsRaw)
            obtain ⟨otherData, rfl, otherFree⟩ := exists_rawParts otherInner (otherRaw holdsRaw)
            rw [holdsRaw, markupAll_rawParts, markupAll_rawParts] at behind
            obtain ⟨texts, ends⟩ := rawParts_append_inj free otherFree behind
            exact ⟨by rw [texts], ends⟩
  | text => exact nomatch openings
  | comment => exact nomatch openings
  | cdata => exact nomatch openings

/-- A text ends at the bracket of what follows it, or at the end. -/
theorem cancels_text {data : String} (serializable : Serializable (.text data)) :
    Cancels (.text data) := by
  intro right rest others rightSerializable textEnds otherEnds same
  have openings := serializable.opening_eq rightSerializable same
  have inRun : ∀ text : List Char, ∀ character ∈ EscapeContext.content.escape text,
      (character != '<') = true := by
    intro text character member
    rw [bne_iff_ne]
    rintro rfl
    exact EscapeContext.less_not_mem_escape text member
  cases rightSerializable with
  | @text other _ =>
      rw [markup_text, markup_text] at same
      obtain ⟨texts, behind⟩ := run_append_inj (inRun _) (inRun _)
        (Opening.stopsRun (textEnds rfl)) (Opening.stopsRun (otherEnds rfl)) same
      rw [String.toList_inj.mp (EscapeContext.escape_injective _ texts)]
      exact ⟨rfl, behind⟩
  | element => exact nomatch openings
  | comment => exact nomatch openings
  | cdata => exact nomatch openings

/-- A comment ends at the sign that it does not contain. -/
theorem cancels_comment {data : String} (serializable : Serializable (.comment data)) :
    Cancels (.comment data) := by
  intro right rest others rightSerializable _ _ same
  have openings := serializable.opening_eq rightSerializable same
  cases serializable with
  | comment inside =>
  cases rightSerializable with
  | @comment other otherInside =>
      rw [markup_comment_append, markup_comment_append] at same
      obtain ⟨texts, behind⟩ := terminated_append_inj (by decide) inside otherInside
        (List.append_cancel_left same)
      rw [String.toList_inj.mp texts]
      exact ⟨rfl, behind⟩
  | element => exact nomatch openings
  | text => exact nomatch openings
  | cdata => exact nomatch openings

/-- A marked section ends at the sign that it does not contain. -/
theorem cancels_cdata {data : String} (serializable : Serializable (.cdata data)) :
    Cancels (.cdata data) := by
  intro right rest others rightSerializable _ _ same
  have openings := serializable.opening_eq rightSerializable same
  cases serializable with
  | cdata inside =>
  cases rightSerializable with
  | @cdata other otherInside =>
      rw [markup_cdata_append, markup_cdata_append] at same
      obtain ⟨texts, behind⟩ := terminated_append_inj (by decide) inside otherInside
        (List.append_cancel_left same)
      rw [String.toList_inj.mp texts]
      exact ⟨rfl, behind⟩
  | element => exact nomatch openings
  | text => exact nomatch openings
  | comment => exact nomatch openings

/-- **Each serializable fragment gives itself back.** -/
theorem Serializable.cancels {fragment : Fragment} (serializable : fragment.Serializable) :
    fragment.Cancels := by
  induction serializable with
  | element named inner separated void raw ih =>
      exact cancels_element (.element named inner separated void raw) ih
  | text filled => exact cancels_text (.text filled)
  | comment inside => exact cancels_comment (.comment inside)
  | cdata inside => exact cancels_cdata (.cdata inside)

/-- The parts of a document give themselves back. -/
theorem markupAll_inj {lefts rights : List Fragment}
    (leftSerializable : ∀ part ∈ lefts, Serializable part)
    (rightSerializable : ∀ part ∈ rights, Serializable part)
    (leftSeparated : Separated lefts) (rightSeparated : Separated rights)
    (same : markupAll false lefts = markupAll false rights) : lefts = rights := by
  have padded : markupAll false lefts ++ [] = markupAll false rights ++ [] := by rw [same]
  exact (markupAll_append_inj (fun part member => (leftSerializable part member).cancels)
    leftSerializable rightSerializable leftSeparated rightSeparated rfl rfl padded).1

end Fragment

end FirstPaint
