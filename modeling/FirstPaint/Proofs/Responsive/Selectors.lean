import FirstPaint.Proofs.Responsive.AllOrNothing

/-!
# What rules apply to

A rule addresses an element by its id: a number sign, and an identifier that denotes the id. In
an identifier every character beyond letters, digits, hyphens and underscores has to be escaped,
and an escape is longer than what it stands for. The rules of an element take its id over as it
is. So they address the element exactly if its id is an identifier that needs no escapes
(`addresses_elementSelector_iff`, `addresses_sizerSelector_iff`). An id that is made up is one
(`isPlain_generated`), but an author may choose any text.
-/

set_option autoImplicit false

namespace FirstPaint

/-! ## Identifiers -/

/-- Characters of which an identifier is made without escapes: letters, digits, hyphens,
underscores and everything beyond the first 128 characters. -/
def isIdentifierCharacter (character : Char) : Bool :=
  character.isAlphanum || character == '-' || character == '_' || 128 ≤ character.toNat

/-- Characters that an identifier may begin with. -/
def isIdentifierStart (character : Char) : Bool :=
  isIdentifierCharacter character && !character.isDigit && character != '-'

/-- Digits of numbers to the base sixteen. -/
def isHexDigit (character : Char) : Bool :=
  character.isDigit || (97 ≤ character.toLower.toNat && character.toLower.toNat ≤ 102)

/-- The value of such a digit. -/
def hexValue (character : Char) : Nat :=
  if character.isDigit then character.toNat - 48 else character.toLower.toNat - 87

/-- The character with a number. The replacement character stands for numbers without one. -/
def characterOf (number : Nat) : Char :=
  if number = 0 then '\uFFFD' else if number.isValidChar then Char.ofNat number else '\uFFFD'

/-- White space right behind the digits of an escape belongs to it. -/
def dropSpace : List Char → List Char
  | '\r' :: '\n' :: rest => rest
  | character :: rest => if Ascii.isWhitespace character then rest else character :: rest
  | [] => []

/-- The character that is written behind a backslash, and what follows it. Up to six digits give
its number; any other character but the end of a line stands for itself. -/
def unescape? : List Char → Option (Char × List Char)
  | [] => none
  | character :: rest =>
    if isHexDigit character then
      let digits := ((character :: rest).takeWhile isHexDigit).take 6
      some (characterOf (digits.foldl (fun number digit => 16 * number + hexValue digit) 0),
        dropSpace ((character :: rest).drop digits.length))
    else if character == '\n' || character == '\r' || character == '\x0c' then none
    else some (character, rest)

section Escapes

variable {text rest : List Char} {character : Char}

theorem exists_dropSpace (text : List Char) :
    ∃ spaces, text = spaces ++ dropSpace text ∧ '>' ∉ spaces := by
  unfold dropSpace
  split
  next rest => exact ⟨['\r', '\n'], rfl, by decide⟩
  next character rest _ =>
    split
    next blank =>
      refine ⟨[character], rfl, fun member => ?_⟩
      rw [← List.mem_singleton.mp member] at blank
      exact absurd blank (by decide)
    next => exact ⟨[], rfl, List.not_mem_nil⟩
  next => exact ⟨[], rfl, List.not_mem_nil⟩

/-- An escape takes something from the text. A greater-than sign is taken only to stand for
itself. -/
theorem exists_of_unescape? (escaped : unescape? text = some (character, rest)) :
    ∃ taken, text = taken ++ rest ∧ taken ≠ [] ∧ (taken = [character] ∨ '>' ∉ taken) := by
  unfold unescape? at escaped
  split at escaped
  next => exact absurd escaped (by simp)
  next first more =>
    split at escaped
    next isDigit =>
      obtain ⟨-, rfl⟩ := Prod.mk.inj (Option.some.inj escaped)
      have isPrefix := (List.take_prefix 6 _).trans
        (List.takeWhile_prefix (l := first :: more) isHexDigit)
      have isDigits : ∀ digit ∈ ((first :: more).takeWhile isHexDigit).take 6,
          isHexDigit digit = true := fun digit member =>
        List.all_eq_true.mp List.all_takeWhile digit (List.mem_of_mem_take member)
      have some : ((first :: more).takeWhile isHexDigit).take 6 ≠ [] := by
        rw [List.takeWhile_cons_of_pos isDigit]
        simp
      generalize ((first :: more).takeWhile isHexDigit).take 6 = digits at isPrefix isDigits some
      obtain ⟨spaces, split, noSpace⟩ := exists_dropSpace ((first :: more).drop digits.length)
      refine ⟨digits ++ spaces, ?_, by simp [some], .inr fun member => ?_⟩
      · rw [List.append_assoc, ← split]
        exact (List.prefix_iff_eq_append.mp isPrefix).symm
      · rcases List.mem_append.mp member with digit | space
        · exact absurd (isDigits _ digit) (by decide)
        · exact noSpace space
    next =>
      split at escaped
      next => exact absurd escaped (by simp)
      next =>
        obtain ⟨rfl, rfl⟩ := Prod.mk.inj (Option.some.inj escaped)
        exact ⟨[_], rfl, by simp, .inl rfl⟩

theorem length_lt_of_unescape? (escaped : unescape? text = some (character, rest)) :
    rest.length < text.length := by
  obtain ⟨taken, rfl, nonempty, -⟩ := exists_of_unescape? escaped
  have := List.length_pos_iff.mpr nonempty
  rw [List.length_append]
  omega

end Escapes

/-- The name that a text denotes in which characters may be escaped. -/
def denoted? (text : List Char) : Option (List Char) :=
  match text with
  | [] => some []
  | character :: rest =>
    if character = '\\' then
      match _escaped : unescape? rest with
      | some (meant, more) => (denoted? more).map (meant :: ·)
      | none => none
    else if isIdentifierCharacter character then (denoted? rest).map (character :: ·)
    else none
termination_by text.length
decreasing_by
  · exact Nat.lt_succ_of_lt (length_lt_of_unescape? _escaped)
  · exact Nat.lt_succ_self _

/-- Whether an identifier may begin like the text. -/
def startsIdentifier : List Char → Bool
  | '-' :: second :: _ => second == '-' || second == '\\' || isIdentifierStart second
  | first :: _ => first == '\\' || isIdentifierStart first
  | [] => false

/-- The name that an identifier denotes. -/
def identifier? (text : List Char) : Option (List Char) :=
  if startsIdentifier text then denoted? text else none

/-- A name that is an identifier without any escapes. -/
def IsPlain (name : List Char) : Prop :=
  startsIdentifier name = true ∧ ∀ character ∈ name, isIdentifierCharacter character = true

instance (name : List Char) : Decidable (IsPlain name) :=
  decidable_of_iff (startsIdentifier name = true ∧ name.all isIdentifierCharacter = true)
    (and_congr_right fun _ => List.all_eq_true)

section Names

variable {text name : List Char}

/-- A name is no longer than the text that denotes it, and shorter if there are escapes. -/
theorem length_of_denoted? (denotes : denoted? text = some name) :
    name.length ≤ text.length ∧ ('\\' ∈ text → name.length < text.length) := by
  fun_induction denoted? text generalizing name with
  | case1 =>
      cases denotes
      simp
  | case2 rest meant more escaped ih =>
      obtain ⟨denoted, known, rfl⟩ := Option.map_eq_some_iff.mp denotes
      have shorter := length_lt_of_unescape? escaped
      have bound := (ih known).1
      simp only [List.length_cons]
      omega
  | case3 => exact absurd denotes (by simp)
  | case4 character rest apart _ ih =>
      obtain ⟨denoted, known, rfl⟩ := Option.map_eq_some_iff.mp denotes
      obtain ⟨bound, strict⟩ := ih known
      refine ⟨Nat.succ_le_succ bound, fun member => Nat.succ_lt_succ (strict ?_)⟩
      exact (List.mem_cons.mp member).resolve_left (Ne.symm apart)
  | case5 => exact absurd denotes (by simp)

/-- Greater-than signs of the text are in the name. -/
theorem count_of_denoted? (denotes : denoted? text = some name) :
    text.count '>' ≤ name.count '>' := by
  fun_induction denoted? text generalizing name with
  | case1 => exact Nat.zero_le _
  | case2 rest meant more escaped ih =>
      obtain ⟨denoted, known, rfl⟩ := Option.map_eq_some_iff.mp denotes
      have bound := ih known
      obtain ⟨taken, rfl, -, same | free⟩ := exists_of_unescape? escaped
      · rw [same, List.singleton_append, List.count_cons_of_ne (by decide), List.count_cons,
          List.count_cons]
        omega
      · rw [List.count_cons_of_ne (by decide), List.count_append,
          List.count_eq_zero_of_not_mem free, List.count_cons]
        omega
  | case3 => exact absurd denotes (by simp)
  | case4 character rest apart _ ih =>
      obtain ⟨denoted, known, rfl⟩ := Option.map_eq_some_iff.mp denotes
      have bound := ih known
      simp only [List.count_cons]
      omega
  | case5 => exact absurd denotes (by simp)

/-- Without escapes a text denotes itself or nothing. -/
theorem denoted?_of_unescaped (unescaped : '\\' ∉ text) : denoted? text = some name ↔
    name = text ∧ ∀ character ∈ text, isIdentifierCharacter character = true := by
  induction text generalizing name with
  | nil =>
      rw [denoted?, Option.some_inj, and_iff_left (by simp)]
      exact eq_comm
  | cons first rest ih =>
      rw [List.mem_cons, not_or] at unescaped
      rw [denoted?, if_neg (Ne.symm unescaped.1), List.forall_mem_cons]
      split
      next isCharacter =>
        rw [Option.map_eq_some_iff, and_iff_right isCharacter]
        constructor
        · rintro ⟨denoted, known, rfl⟩
          obtain ⟨rfl, characters⟩ := (ih unescaped.2).mp known
          exact ⟨rfl, characters⟩
        · rintro ⟨rfl, characters⟩
          exact ⟨rest, (ih unescaped.2).mpr ⟨rfl, characters⟩, rfl⟩
      next other => simp [other]

/-- **An identifier denotes itself exactly if it is plain.** With an escape it would be longer
than what it denotes. -/
theorem identifier?_self_iff : identifier? name = some name ↔ IsPlain name := by
  unfold identifier? IsPlain
  constructor
  · intro denotes
    split at denotes
    next starts =>
      have unescaped : '\\' ∉ name := fun member =>
        absurd ((length_of_denoted? denotes).2 member) (Nat.lt_irrefl _)
      exact ⟨starts, ((denoted?_of_unescaped unescaped).mp denotes).2⟩
    next => exact absurd denotes (by simp)
  · rintro ⟨starts, characters⟩
    have unescaped : '\\' ∉ name := fun member => absurd (characters _ member) (by decide)
    rw [if_pos starts]
    exact (denoted?_of_unescaped unescaped).mpr ⟨rfl, characters⟩

end Names

/-! ## Selectors -/

/-- A selector for the elements of a name, or for the sizers in them. -/
inductive Addresses (name : List Char) : List Char → Prop where
  | elements {text : List Char} (denotes : identifier? text = some name) :
      Addresses name ('#' :: text)
  | sizers {text : List Char} (denotes : identifier? text = some name) :
      Addresses name ('#' :: text ++ '>' :: sizerTag.toList)

theorem length_of_identifier? {text name : List Char} (denotes : identifier? text = some name) :
    name.length ≤ text.length := by
  unfold identifier? at denotes
  split at denotes
  next => exact (length_of_denoted? denotes).1
  next => exact absurd denotes (by simp)

theorem count_of_identifier? {text name : List Char} (denotes : identifier? text = some name) :
    text.count '>' ≤ name.count '>' := by
  unfold identifier? at denotes
  split at denotes
  next => exact count_of_denoted? denotes
  next => exact absurd denotes (by simp)

/-- The selector of an element addresses it exactly if its id is plain. -/
theorem addresses_elementSelector_iff (id : String) :
    Addresses id.toList (elementSelector id) ↔ IsPlain id.toList := by
  rw [← identifier?_self_iff]
  refine ⟨fun addresses => ?_, .elements⟩
  generalize written : elementSelector id = selector at addresses
  cases addresses with
  | elements denotes =>
      obtain ⟨-, rfl⟩ := List.cons.inj written
      exact denotes
  | @sizers text denotes =>
      -- The text would be shorter than the id.
      have same : id.toList = text ++ '>' :: sizerTag.toList := (List.cons.inj written).2
      have bound := length_of_identifier? denotes
      rw [same, List.length_append, List.length_cons] at bound
      omega

/-- The selector of the sizers in an element addresses them exactly if the id of the element is
plain. -/
theorem addresses_sizerSelector_iff (id : String) :
    Addresses id.toList (sizerSelector id) ↔ IsPlain id.toList := by
  rw [← identifier?_self_iff]
  refine ⟨fun addresses => ?_, .sizers⟩
  generalize written : sizerSelector id = selector at addresses
  cases addresses with
  | @elements text denotes =>
      -- The greater-than sign would have to be in the id once more.
      have same : id.toList ++ '>' :: sizerTag.toList = text := (List.cons.inj written).2
      have bound := count_of_identifier? denotes
      rw [← same, List.count_append, List.count_cons_self] at bound
      omega
  | @sizers text denotes =>
      have same : id.toList ++ '>' :: sizerTag.toList = text ++ '>' :: sizerTag.toList :=
        (List.cons.inj written).2
      rwa [← List.append_cancel_right same] at denotes

/-! ## The rules of an element -/

/-- An id that is made up is an identifier without escapes. -/
theorem isPlain_generated (number : Nat) :
    IsPlain (Tree.generatedIdStart ++ toString number).toList := by
  have start : Tree.generatedIdStart.toList = ['i', '-', 'a', 'm', 'p', '-'] := by
    decide
  have digits : (toString number).toList = Nat.toDigits 10 number := by
    rw [Nat.toString_eq_repr, Nat.toList_repr]
  have plain : ['i', '-', 'a', 'm', 'p', '-'].all isIdentifierCharacter = true := by
    decide
  rw [String.toList_append, start, digits]
  refine ⟨rfl, fun character member => ?_⟩
  rcases List.mem_append.mp member with front | digit
  · exact List.all_eq_true.mp plain character front
  · have isDigit := Nat.isDigit_of_mem_toDigits (by decide) (by decide) digit
    simp [isIdentifierCharacter, Char.isAlphanum, isDigit]

section Rules

variable {budget : Budget} {tree : Tree} {id : NodeId} {element : Element} {css : String}

/-- The id of an element after its attributes have been moved is the one it had before, or one
that no element had. The rules that have been accepted are the ones for this id. -/
theorem exists_id_of_accepted (forest : tree.Forest)
    (inStore : ∀ style, budget.style? = some style → style < tree.size)
    (isElement : tree.element? id = some element)
    (accepted : acceptedRules? budget tree id = some css) :
    ∃ styles name, element.Asks styles ∧ (∃ style ∈ styles, style ≠ .nothing) ∧
      (moveToStylesheet budget tree id).tree.attribute? id "id" = some name ∧
      (tree.attribute? id "id" = some name ∨
        tree.attribute? id "id" = none ∧ tree.Unused name ∧ IsPlain name.toList) ∧
      AnchoredRules styles name (styles.flatMap (·.styleRules name)) css := by
  have outcome := moveToStylesheet_outcome budget tree id
  rw [accepted] at outcome
  generalize moveToStylesheet budget tree id = result at outcome
  cases outcome with
  | @accepted _ found same read something allowed =>
      cases isElement.symm.trans same
      refine ⟨found.map (·.style), (tree.ensureId id).1, Element.asks_iff.mpr ⟨found, read, rfl⟩,
        exists_ne_nothing something, ?_, ?_, rulesFor_anchored found _⟩
      · have outcome := Budget.add_outcome budget (tree.ensureId id).2
          (rulesFor found (tree.ensureId id).1)
        generalize budget.add (tree.ensureId id).2 (rulesFor found (tree.ensureId id).1) = added
          at outcome allowed
        cases outcome with
        | exceeded => exact absurd allowed (by simp)
        | headless => exact absurd allowed (by simp)
        | charged located => exact attribute?_id_of_charged forest inStore isElement read located _
      · rcases Tree.ensureId_origin forest id with kept | ⟨noId, unused⟩
        · exact .inl kept
        · refine .inr ⟨noId, unused, ?_⟩
          obtain hasId | ⟨-, number, generated⟩ := Tree.ensureId_eq tree id
          · exact absurd (noId.symm.trans hasId) (by simp)
          · rw [generated]
            exact isPlain_generated number

/-- **Rules address the element exactly if its id is plain.** What has been accepted for an
element is a list of rules, at least one of them. Each selector is made of the id that the
element has from then on, and it is the id that it had before, or one that no attached element
had. An id that is made up is an identifier without escapes, and then all selectors denote the
element or the sizers in it. So they do for any id of this kind, and for no other id does a single
selector denote the element or its sizers, since what would have to be escaped is not. -/
theorem rules_address_iff (reachable : tree.Reachable)
    (inStore : ∀ style, budget.style? = some style → style < tree.size)
    (isElement : tree.element? id = some element)
    (accepted : acceptedRules? budget tree id = some css) :
    ∃ styles name, element.Asks styles ∧
      (moveToStylesheet budget tree id).tree.attribute? id "id" = some name ∧
      (tree.attribute? id "id" = some name ∨
        tree.attribute? id "id" = none ∧ tree.Unused name ∧ IsPlain name.toList) ∧
      let rules := styles.flatMap (·.styleRules name)
      rules ≠ [] ∧ css.toList = rules.flatMap StyleRule.text ∧ ∀ rule ∈ rules,
        (rule.selector = elementSelector name ∨ rule.selector = sizerSelector name) ∧
        (Addresses name.toList rule.selector ↔ IsPlain name.toList) := by
  obtain ⟨styles, name, asks, something, identified, origin, anchored⟩ :=
    exists_id_of_accepted reachable.forest inStore isElement accepted
  refine ⟨styles, name, asks, identified, origin, anchored.ne_nil something, ?_,
    fun rule listed => ?_⟩
  · rw [anchored.written, String.toList_ofList]
  · have selected := anchored.addressed rule listed
    refine ⟨selected, ?_⟩
    rcases selected with same | same
    · rw [same]
      exact addresses_elementSelector_iff name
    · rw [same]
      exact addresses_sizerSelector_iff name

end Rules

/-- A document with images that are shown in print only: one without an id, and one with an id. -/
def Tree.anchoredTree (name : String) : Tree :=
  built [.createElement "html" [], .append root 1, .createElement "head" [], .append 1 2,
    .createElement "body" [], .append 1 3,
    .createElement "amp-img" [("media", "print"), ("heights", "9px")], .append 3 4,
    .createElement "amp-img" [("id", name), ("media", "print")], .append 3 5]

/-- The rules for an id that is made up address the element, and those for an id with a full stop
in it do not. -/
theorem rules_address_iff_anchoredTree :
    let tree := Tree.anchoredTree "a.b"
    (∃ rules : List StyleRule, rules ≠ [] ∧
      acceptedRules? { limit := 99 } tree 4 = some (String.ofList (rules.flatMap StyleRule.text)) ∧
      ∀ rule ∈ rules, Addresses "i-amp-0".toList rule.selector) ∧
    ∃ rules : List StyleRule, rules ≠ [] ∧
      acceptedRules? { limit := 99 } tree 5 = some (String.ofList (rules.flatMap StyleRule.text)) ∧
      ∀ rule ∈ rules, ¬ Addresses "a.b".toList rule.selector := by
  intro tree
  have reachable : tree.Reachable := Tree.reachable_built (by decide +kernel)
  have inStore : ∀ style, ({ limit := 99 } : Budget).style? = some style → style < tree.size :=
    fun _ known => absurd known (by simp)
  have ruled (id : NodeId) (name : String) (isElement : (tree.element? id).isSome = true)
      (accepted : (acceptedRules? { limit := 99 } tree id).isSome = true)
      (anchor : (moveToStylesheet { limit := 99 } tree id).tree.attribute? id "id" = some name) :
      ∃ rules : List StyleRule, rules ≠ [] ∧ acceptedRules? { limit := 99 } tree id =
        some (String.ofList (rules.flatMap StyleRule.text)) ∧
        ∀ rule ∈ rules, Addresses name.toList rule.selector ↔ IsPlain name.toList := by
    obtain ⟨element, isElement⟩ := Option.isSome_iff_exists.mp isElement
    obtain ⟨css, accepted⟩ := Option.isSome_iff_exists.mp accepted
    obtain ⟨_, _, -, anchored, -, some, written, addressed⟩ :=
      rules_address_iff reachable inStore isElement accepted
    cases anchor.symm.trans anchored
    refine ⟨_, some, ?_, fun rule listed => (addressed rule listed).2⟩
    rw [← written, String.ofList_toList, accepted]
  obtain ⟨made, someMade, writtenMade, addressed⟩ :=
    ruled 4 "i-amp-0" (by decide +kernel) (by decide +kernel) (by decide +kernel)
  obtain ⟨own, someOwn, writtenOwn, missed⟩ :=
    ruled 5 "a.b" (by decide +kernel) (by decide +kernel) (by decide +kernel)
  exact ⟨⟨made, someMade, writtenMade, fun rule listed =>
      (addressed rule listed).mpr (by decide +kernel)⟩,
    own, someOwn, writtenOwn, fun rule listed addresses =>
      absurd ((missed rule listed).mp addresses) (by decide +kernel)⟩

/-- The rule for an id with a full stop is written without an escape. With one it would address the
element. -/
theorem rule_misses_element :
    acceptedRules? { limit := 99 } (Tree.anchoredTree "a.b") 5 =
      some "@media not print\x7b#a.b\x7bdisplay:none;\x7d\x7d" ∧
    ¬ Addresses "a.b".toList "#a.b".toList ∧ Addresses "a.b".toList "#a\\.b".toList := by
  refine ⟨by decide +kernel, ?_, ?_⟩
  · have written : "#a.b".toList = elementSelector "a.b" := by decide +kernel
    rw [written, addresses_elementSelector_iff]
    decide +kernel
  · have known : startsIdentifier ['a', '\\', '.', 'b'] = true ∧
        isIdentifierCharacter 'a' = true ∧ isIdentifierCharacter 'b' = true ∧
        isHexDigit '.' = false := by decide +kernel
    have denotes : identifier? ['a', '\\', '.', 'b'] = some ['a', '.', 'b'] := by
      simp [identifier?, denoted?, unescape?, known]
    exact .elements denotes

end FirstPaint
