import FirstPaint.Proofs.Document.Ending
import FirstPaint.Proofs.Document.FreshNames
import FirstPaint.Proofs.Layout.StyleGrowth
import FirstPaint.Proofs.Responsive.Outcomes
import FirstPaint.Proofs.Responsive.StyleRules
import FirstPaint.Proofs.Stylesheet.Omission

/-!
# All blocking attributes of an element, or none

An attempt to move the blocking attributes of an element fails as a whole or succeeds as a
whole (`moveToStylesheet_all_or_nothing`). It fails if an attribute cannot be read, if the
rules do not fit into the budget, or if there is nothing that could hold a stylesheet, and
then every node is what it was, the element included. Otherwise the blocking attributes are
gone from the element, and the rules of all of them are added at once.

By the time rules are refused one edit has been made: the element may have got an id for
them. The id was not there before, so it is the last attribute, and taking it away restores
the list (`nodes_ensureId_erased`). No other edit comes before a refusal, since a stylesheet
is created only for rules that fit (`Budget.Outcome.tree_of_refused`).
-/

set_option autoImplicit false

namespace FirstPaint

/-! ## What the attributes ask for -/

/-- The blocking attributes of an element ask for styles, each for one and in their order. -/
def Element.Asks (element : Element) (styles : List ResponsiveStyle) : Prop :=
  List.Forall₂
    (fun entry style => ∃ blocking, ResponsiveAttribute.ofName? entry.name = some blocking ∧
      ResponsiveStyle.read blocking entry.value (element.attributes.hasValue "srcset") = .ok style)
    (element.attributes.toList.filter fun entry =>
      (ResponsiveAttribute.ofName? entry.name).isSome)
    styles

section Reading

variable {hasImageSources : Bool} {entries : List Attribute} {element : Element}
  {styles : List ResponsiveStyle}

/-- Reading the attributes one after another finds what each of them asks for. -/
theorem readBlocking_iff_forall₂ :
    (∃ found, readBlocking hasImageSources entries = .ok found ∧ found.map (·.style) = styles) ↔
      List.Forall₂
        (fun entry style => ∃ blocking, ResponsiveAttribute.ofName? entry.name = some blocking ∧
          ResponsiveStyle.read blocking entry.value hasImageSources = .ok style)
        (entries.filter fun entry => (ResponsiveAttribute.ofName? entry.name).isSome) styles := by
  induction entries generalizing styles with
  | nil => simp [readBlocking, eq_comm]
  | cons first rest ih =>
      cases kind : ResponsiveAttribute.ofName? first.name with
      | none =>
          rw [List.filter_cons_of_neg (by simp [kind]), ← ih]
          simp only [readBlocking, kind]
      | some blocking =>
          rw [List.filter_cons_of_pos (by simp [kind])]
          constructor
          · rintro ⟨found, read, rfl⟩
            rcases readBlocking_cons read with ⟨none, -⟩ | ⟨_, style, more, some, own, others, rfl⟩
            · exact absurd (kind.symm.trans none) (by simp)
            · exact .cons ⟨_, some, own⟩ (ih.mp ⟨more, others, rfl⟩)
          · intro asked
            cases asked with
            | @cons _ style _ more own others =>
                obtain ⟨other, same, own⟩ := own
                cases kind.symm.trans same
                obtain ⟨found, read, rfl⟩ := ih.mpr others
                refine ⟨⟨first.name, style⟩ :: found, ?_, rfl⟩
                simp only [readBlocking, kind, own, read]
                rfl

theorem Element.asks_iff : element.Asks styles ↔
    ∃ found, element.blockingStyles = .ok found ∧ found.map (·.style) = styles :=
  readBlocking_iff_forall₂.symm

end Reading

/-! ## What is left of the attributes -/

/-- The attributes without the blocking ones, and with an id behind them if one had to be made
up. -/
structure Attributes.Stripped (before after : Attributes) : Prop where
  gone : ∀ name ∈ blockingNames, after.contains name = false
  kept : ∃ made, after.toList = before.toList.filter (·.name ∉ blockingNames) ++ made ∧
    (made = [] ∨ before.contains "id" = false ∧ ∃ fresh, made = [⟨"id", fresh⟩])

theorem Attributes.contains_withoutBlocking {attributes : Attributes} {name : String}
    (blocks : name ∈ blockingNames) : attributes.withoutBlocking.contains name = false := by
  refine List.any_eq_false.mpr fun entry member => ?_
  obtain ⟨-, free⟩ := List.mem_filter.mp member
  rw [lower_of_mem_blockingNames blocks, beq_iff_eq]
  rintro rfl
  exact absurd blocks (by simpa using free)

theorem Attributes.Moved.stripped {before after : Attributes} (moved : before.Moved after) :
    before.Stripped after := by
  cases moved with
  | bare =>
      refine ⟨fun name blocks => contains_withoutBlocking blocks, [], ?_, .inl rfl⟩
      rw [List.append_nil, withoutBlocking]
  | named fresh noId =>
      refine ⟨fun name blocks => contains_withoutBlocking blocks, [⟨"id", fresh⟩], ?_,
        .inr ⟨noId, fresh, rfl⟩⟩
      have lowered : Ascii.lower "id" = "id" := by with_unfolding_all decide
      have noBlocking : "id" ∉ blockingNames := by decide
      rw [withoutBlocking, toList_insert_of_absent noId, List.filter_append, lowered,
        List.filter_cons_of_pos (by simpa using noBlocking), List.filter_nil]

/-! ## What is taken back -/

section Ids

variable {tree : Tree} {id : NodeId} {element : Element}

/-- An id that was made up is taken back without a trace. -/
theorem nodes_ensureId_erased (isElement : tree.element? id = some element)
    (noId : tree.hasAttribute id "id" = false) :
    ((tree.ensureId id).2.eraseAttribute id "id").nodes = tree.nodes := by
  have rewritten := (Tree.Rewritten.ensureId tree id).eraseAttribute "id"
  refine rewritten.toSameLinks.nodes_eq fun other => ?_
  by_cases here : other = id
  · obtain ⟨attributes, named, origin⟩ := element?_ensureId isElement
    rcases origin with ⟨hasId, -⟩ | ⟨-, fresh, rfl⟩
    · exact absurd (noId.symm.trans hasId) (by simp)
    · have erased := Tree.element?_eraseAttribute named "id"
      rw [Tree.hasAttribute_of_element? isElement] at noId
      rw [Attributes.erase_insert_of_absent noId] at erased
      rw [here, Tree.element?_eq_some_iff.mp erased, Tree.element?_eq_some_iff.mp isElement]
  · exact rewritten.kind? other here

theorem ensureId_of_hasAttribute (isElement : tree.element? id = some element)
    (hasId : tree.hasAttribute id "id" = true) : (tree.ensureId id).2 = tree := by
  rw [Tree.hasAttribute_of_element? isElement, ← Attributes.isSome_get?] at hasId
  obtain ⟨present, isId⟩ := Option.isSome_iff_exists.mp hasId
  rw [Tree.ensureId, Tree.attribute?_of_element? isElement, isId]

end Ids

/-! ## Where the rules go -/

section Housing

variable {budget : Budget} {tree middle : Tree} {sheet : NodeId} {css : String}

/-- Rules that are charged are text at the end of a node of the store, and the elements that
were there are what they were. -/
theorem Budget.Located.textAdded_of_inStore (located : budget.Located tree sheet middle)
    (forest : tree.Forest) (inStore : ∀ style, budget.style? = some style → style < tree.size)
    (css : String) :
    Tree.TextAdded middle (middle.appendText sheet css) sheet css ∧
      ∀ {id}, id < tree.size → (middle.appendText sheet css).element? id = tree.element? id := by
  have housed : middle.Forest ∧ sheet < middle.size ∧
      ∀ {id}, id < tree.size → middle.element? id = tree.element? id := by
    cases located with
    | known known => exact ⟨forest, inStore _ known, fun _ => rfl⟩
    | found _ present =>
        exact ⟨forest, (forest.isCustomStyle_of_customStyle? present).lt_size, fun _ => rfl⟩
    | created _ _ headFound =>
        have inside := Tree.lt_size_of_isTagged (Tree.isTagged_of_head? headFound)
        have inserted := forest.inserted inside styleKind
        refine ⟨inserted.forest, ?_, fun old => Tree.element?_congr (inserted.kind?_old old)⟩
        rw [inserted.size]
        exact Nat.lt_succ_self _
  obtain ⟨middleForest, inside, elements⟩ := housed
  have added := middleForest.textAdded inside css
  exact ⟨added, fun old => (added.element?_eq _).trans (elements old)⟩

end Housing

/-! ## What a move comes to -/

/-- What has become of document and budget when the attributes of an element have been moved,
given the styles that they ask for. -/
inductive Migrated (budget : Budget) (tree : Tree) (id : NodeId) (styles : List ResponsiveStyle)
    (result : MoveResult) : Prop where
  /-- No attribute has an effect, so nothing is added. -/
  | silent (nothing : ∀ style ∈ styles, style = .nothing)
      (uncharged : result.budget = budget) (taken : tree.Rewritten result.tree id) :
      Migrated budget tree id styles result
  /-- The rules of all attributes, one after another, are one addition to the stylesheet, and
  their selectors are made of the id that the element has from then on. -/
  | ruled {name css : String} {rules : List StyleRule} {named housed filled : Tree}
      {sheet : NodeId} (something : ∃ style ∈ styles, style ≠ .nothing)
      (identified : result.tree.attribute? id "id" = some name)
      (anchored : AnchoredRules styles name rules css)
      (given : tree.Rewritten named id) (located : budget.Located named sheet housed)
      (added : Tree.TextAdded housed filled sheet css) (taken : filled.Rewritten result.tree id)
      (fits : budget.counted named + css.utf8ByteSize ≤ budget.limit)
      (charged : result.budget =
        { limit := budget.limit
          used := budget.counted named + css.utf8ByteSize
          style? := some sheet }) :
      Migrated budget tree id styles result

section Moving

variable {budget : Budget} {tree : Tree} {id : NodeId} {element : Element}

/-- A move succeeds exactly if all attributes can be read and there are no rules, or they can
be added. -/
theorem moveToStylesheet_problem?_eq_none_iff (isElement : tree.element? id = some element) :
    (moveToStylesheet budget tree id).problem? = none ↔
      ∃ found, element.blockingStyles = .ok found ∧
        (found.all (·.style.isNothing) = true ∨
          (budget.add (tree.ensureId id).2 (rulesFor found (tree.ensureId id).1)).refusal? =
            none) := by
  have styles : (tree.element? id).map Element.blockingStyles = some element.blockingStyles := by
    rw [isElement, Option.map_some]
  cases read : element.blockingStyles with
  | error problem =>
      rw [read] at styles
      simp [moveToStylesheet, styles]
  | ok found =>
      rw [read] at styles
      have refusal := addRules_problem? budget tree id found
      simp only [moveToStylesheet, styles, Except.ok.injEq, exists_eq_left']
      cases nothing : found.all (·.style.isNothing) with
      | true => simp
      | false =>
          cases added : (addRules budget tree id found).problem? with
          | none =>
              rw [added] at refusal
              simpa [added] using refusal.symm
          | some reason =>
              rw [added] at refusal
              obtain ⟨other, refused, -⟩ := Option.map_eq_some_iff.mp refusal.symm
              simp [added, refused]

/-- A move that fails changes no node, and the budget has found the stylesheet at most. -/
theorem moveToStylesheet_of_problem (problem : (moveToStylesheet budget tree id).problem? ≠ none) :
    (moveToStylesheet budget tree id).tree.nodes = tree.nodes ∧
      Budget.Ahead (tree.ensureId id).2 budget (moveToStylesheet budget tree id).budget := by
  have outcome := moveToStylesheet_outcome budget tree id
  generalize acceptedRules? budget tree id = accepted at outcome
  generalize moveToStylesheet budget tree id = result at outcome problem
  cases outcome with
  | unread => exact ⟨rfl, .same⟩
  | bare => exact absurd rfl problem
  | accepted => exact absurd rfl problem
  | refused isElement _ _ refusal =>
      refine ⟨?_, Budget.ahead_of_refused (by rw [refusal]; rfl)⟩
      cases hasId : tree.hasAttribute id "id" with
      | true =>
          rw [if_pos rfl, ensureId_of_hasAttribute isElement hasId]
      | false =>
          rw [if_neg (by simp)]
          exact nodes_ensureId_erased isElement hasId

/-- Once the rules have been charged and the attributes are taken away, the id of the element is
the one that the rules have been written for. -/
theorem attribute?_id_of_charged (forest : tree.Forest)
    (inStore : ∀ style, budget.style? = some style → style < tree.size)
    (isElement : tree.element? id = some element) {found : List FoundStyle}
    (read : element.blockingStyles = .ok found) {sheet : NodeId} {housed : Tree}
    (located : budget.Located (tree.ensureId id).2 sheet housed) (css : String) :
    (eraseFound (housed.appendText sheet css) id found).attribute? id "id" =
      some (tree.ensureId id).1 := by
  obtain ⟨attributes, named, -⟩ := element?_ensureId isElement
  have given := Tree.Rewritten.ensureId tree id
  have tagged := Tree.isSome_tag?_of_element? isElement
  obtain ⟨-, elements⟩ := located.textAdded_of_inStore (forest.congr given.toSameLinks)
    (fun style known => Nat.lt_of_lt_of_le (inStore style known) (given.size_le tagged)) css
  -- The id is none of the attributes that are taken.
  have noBlocking : Ascii.lower "id" ∉ blockingNames := by with_unfolding_all decide
  rw [attribute?_eraseFound (readBlocking_apart read noBlocking), Tree.attribute?,
    elements (Tree.lt_size_of_element? named)]
  exact Tree.attribute?_ensureId_id isElement

/-- Once the rules have been charged, the attributes that ask for them are taken away. -/
theorem migrated_of_charged (forest : tree.Forest)
    (inStore : ∀ style, budget.style? = some style → style < tree.size)
    (isElement : tree.element? id = some element) {found : List FoundStyle}
    (read : element.blockingStyles = .ok found)
    (something : found.all (·.style.isNothing) = false) {sheet : NodeId} {housed : Tree}
    (located : budget.Located (tree.ensureId id).2 sheet housed) :
    let css := rulesFor found (tree.ensureId id).1
    let result : MoveResult :=
      { budget :=
          { limit := budget.limit
            used := budget.counted (tree.ensureId id).2 + css.utf8ByteSize
            style? := some sheet }
        tree := eraseFound (housed.appendText sheet css) id found }
    budget.counted (tree.ensureId id).2 + css.utf8ByteSize ≤ budget.limit →
      ∃ after, element.attributes.Stripped after ∧
        result.tree.element? id = some ⟨element.tag, after⟩ ∧
        Migrated budget tree id (found.map (·.style)) result := by
  intro css result fits
  obtain ⟨attributes, named, origin⟩ := element?_ensureId isElement
  rw [Tree.hasAttribute_of_element? isElement] at origin
  have given := Tree.Rewritten.ensureId tree id
  have inside : id < (tree.ensureId id).2.size := Tree.lt_size_of_element? named
  have tagged := Tree.isSome_tag?_of_element? isElement
  obtain ⟨added, elements⟩ := located.textAdded_of_inStore (forest.congr given.toSameLinks)
    (fun style known => Nat.lt_of_lt_of_le (inStore style known) (given.size_le tagged)) css
  obtain ⟨after, moved, stripped⟩ :=
    exists_moved read ((elements inside).trans named) (origin.imp_left And.right)
  refine ⟨after, moved.stripped, stripped, ?_⟩
  exact .ruled (exists_ne_nothing something)
    (attribute?_id_of_charged forest inStore isElement read located css)
    (rulesFor_anchored found _) given located added (.eraseFound _ id found) fits rfl

/-- A move that succeeds takes all blocking attributes and adds the rules of all of them. -/
theorem moveToStylesheet_of_no_problem (forest : tree.Forest)
    (inStore : ∀ style, budget.style? = some style → style < tree.size)
    (isElement : tree.element? id = some element)
    (allowed : (moveToStylesheet budget tree id).problem? = none) :
    ∃ styles after, element.Asks styles ∧ element.attributes.Stripped after ∧
      (moveToStylesheet budget tree id).tree.element? id = some ⟨element.tag, after⟩ ∧
      Migrated budget tree id styles (moveToStylesheet budget tree id) := by
  obtain ⟨found, read, -⟩ := (moveToStylesheet_problem?_eq_none_iff isElement).mp allowed
  have asks : element.Asks (found.map (·.style)) := Element.asks_iff.mpr ⟨found, read, rfl⟩
  have outcome := moveToStylesheet_outcome budget tree id
  generalize acceptedRules? budget tree id = accepted at outcome
  generalize moveToStylesheet budget tree id = result at outcome allowed
  cases outcome with
  | unread nothing => exact absurd (by rw [isElement, Option.map_some, read]) (nothing found)
  | refused => exact absurd allowed (by simp)
  | @bare _ other same readToo nothing =>
      cases isElement.symm.trans same
      cases read.symm.trans readToo
      obtain ⟨after, moved, stripped⟩ := exists_moved read isElement (.inl rfl)
      refine ⟨_, after, asks, moved.stripped, stripped, ?_⟩
      exact .silent (all_isNothing_iff.mp nothing) rfl (.eraseFound tree id found)
  | @accepted _ other same readToo something fits =>
      cases isElement.symm.trans same
      cases read.symm.trans readToo
      have outcome := Budget.add_outcome budget (tree.ensureId id).2
        (rulesFor found (tree.ensureId id).1)
      generalize budget.add (tree.ensureId id).2 (rulesFor found (tree.ensureId id).1) = result
        at outcome fits
      cases outcome with
      | exceeded => exact absurd fits (by simp)
      | headless => exact absurd fits (by simp)
      | @charged sheet housed located within =>
          obtain ⟨after, stripped, taken, migrated⟩ :=
            migrated_of_charged forest inStore isElement read something located within
          exact ⟨_, after, asks, stripped, taken, migrated⟩

/-- **Moving is all or nothing.** If the blocking attributes of an element cannot be moved,
every node is what it was, so the element has all of its attributes, no id has been made up
and no rule has been added; the budget has looked for the stylesheet at most. If they are
moved, the element has none of them left, all others with their values in their order, and
perhaps an id behind them. The rules of all of them have been added at once and in their
order, with selectors made of the id of the element, unless none of them has an effect. They are
moved exactly if all of them can be read and their rules fit and have a place. -/
theorem moveToStylesheet_all_or_nothing (budget : Budget) (reachable : tree.Reachable)
    (inStore : ∀ style, budget.style? = some style → style < tree.size)
    (isElement : tree.element? id = some element) :
    let result := moveToStylesheet budget tree id
    let name := (tree.ensureId id).1
    let named := (tree.ensureId id).2
    (result.problem? ≠ none →
      result.tree.nodes = tree.nodes ∧ Budget.Ahead named budget result.budget) ∧
    (result.problem? = none → ∃ styles after, element.Asks styles ∧
      element.attributes.Stripped after ∧
      result.tree.element? id = some ⟨element.tag, after⟩ ∧
      Migrated budget tree id styles result) ∧
    (result.problem? = none ↔ ∃ styles, element.Asks styles ∧
      ((∀ style ∈ styles, style = .nothing) ∨
        ∃ rules css, AnchoredRules styles name rules css ∧
          budget.counted named + css.utf8ByteSize ≤ budget.limit ∧
          (budget.style?.isSome = true ∨ tree.head?.isSome = true))) := by
  intro result name named
  refine ⟨moveToStylesheet_of_problem,
    moveToStylesheet_of_no_problem reachable.forest inStore isElement, ?_⟩
  have head : named.head? = tree.head? := (Tree.Rewritten.ensureId tree id).parts.2 "head"
  have fits : ∀ found : List FoundStyle,
      (budget.add named (rulesFor found name)).refusal? = none ↔
        ∃ rules css, AnchoredRules (found.map (·.style)) name rules css ∧
          budget.counted named + css.utf8ByteSize ≤ budget.limit ∧
          (budget.style?.isSome = true ∨ tree.head?.isSome = true) := by
    intro found
    rw [(Budget.add_outcome budget named (rulesFor found name)).refusal?_eq_none_iff, head]
    constructor
    · exact fun allowed => ⟨_, _, rulesFor_anchored found name, allowed⟩
    · rintro ⟨rules, css, anchored, allowed⟩
      exact anchored.eq_rulesFor ▸ allowed
  rw [moveToStylesheet_problem?_eq_none_iff isElement]
  constructor
  · rintro ⟨found, read, allowed⟩
    exact ⟨_, Element.asks_iff.mpr ⟨found, read, rfl⟩,
      allowed.imp all_isNothing_iff.mp (fits found).mp⟩
  · rintro ⟨styles, asks, allowed⟩
    obtain ⟨found, read, rfl⟩ := Element.asks_iff.mp asks
    exact ⟨found, read, allowed.imp all_isNothing_iff.mpr (fits found).mpr⟩

end Moving

/-- A document with an image without an id that has all three blocking attributes, two of them
with conditions. -/
def Tree.shownTree : Tree :=
  Tree.built [.createElement "html" [], .append root 1, .createElement "head" [], .append 1 2,
    .createElement "body" [], .append 1 3,
    .createElement "amp-img" [("media", "print"), ("class", "a"),
      ("heights", "(min-width:9px) 7px, 5px"), ("srcset", "b 1w"), ("sizes", "all 3vw, 2vw")],
    .append 3 4]

/-- What the attributes of the image come to, in their order. -/
def shownRules : String :=
  "@media not print\x7b#i-amp-0\x7bdisplay:none;\x7d\x7d" ++
    "#i-amp-0>i-amphtml-sizer\x7bheight:5px\x7d;" ++
    "@media (min-width:9px)\x7b#i-amp-0>i-amphtml-sizer\x7bheight:7px;\x7d\x7d" ++
    "#i-amp-0\x7bwidth:2vw\x7d;@media all\x7b#i-amp-0\x7bwidth:3vw;\x7d\x7d"

/-- The attributes are moved under a limit of as many bytes as there are in their rules, which are
the content of the new stylesheet. With one byte less the id that was made up is taken back. -/
theorem moveToStylesheet_all_or_nothing_shownTree :
    let result := moveToStylesheet { limit := 191 } Tree.shownTree 4
    let refused := moveToStylesheet { limit := 190 } Tree.shownTree 4
    (result.problem? = none ∧ result.tree.textContent 5 = shownRules ∧
      result.budget.used = shownRules.utf8ByteSize ∧
      result.tree.element? 4 = some ⟨"amp-img",
        ⟨[⟨"class", "a"⟩, ⟨"srcset", "b 1w"⟩, ⟨"id", "i-amp-0"⟩]⟩⟩ ∧
      ∃ styles, Migrated { limit := 191 } Tree.shownTree 4 styles result) ∧
    refused.problem?.isSome = true ∧ refused.tree.nodes = Tree.shownTree.nodes := by
  intro result refused
  have reachable : Tree.shownTree.Reachable := by
    unfold Tree.shownTree
    exact Tree.reachable_built (by decide +kernel)
  have isElement : Tree.shownTree.element? 4 = some ⟨"amp-img",
      ⟨[⟨"media", "print"⟩, ⟨"class", "a"⟩, ⟨"heights", "(min-width:9px) 7px, 5px"⟩,
        ⟨"srcset", "b 1w"⟩, ⟨"sizes", "all 3vw, 2vw"⟩]⟩⟩ := by
    decide +kernel
  obtain ⟨allowed, filled⟩ : result.problem? = none ∧ result.tree.textContent 5 = shownRules ∧
      result.budget.used = shownRules.utf8ByteSize ∧
      result.tree.element? 4 = some ⟨"amp-img",
        ⟨[⟨"class", "a"⟩, ⟨"srcset", "b 1w"⟩, ⟨"id", "i-amp-0"⟩]⟩⟩ := by decide +kernel
  have problem : refused.problem?.isSome = true := by decide +kernel
  obtain ⟨-, moved, -⟩ := moveToStylesheet_all_or_nothing { limit := 191 } reachable
    (fun _ known => absurd known (by simp)) isElement
  obtain ⟨unchanged, -⟩ := moveToStylesheet_all_or_nothing { limit := 190 } reachable
    (fun _ known => absurd known (by simp)) isElement
  obtain ⟨styles, _, -, -, -, migrated⟩ := moved allowed
  obtain ⟨content, used, stripped⟩ := filled
  exact ⟨⟨allowed, content, used, stripped, styles, migrated⟩, problem,
    (unchanged (Option.isSome_iff_ne_none.mp problem)).1⟩

end FirstPaint
