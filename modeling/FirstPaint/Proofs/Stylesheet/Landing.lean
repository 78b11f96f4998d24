import FirstPaint.Proofs.Pass.Growth
import Mathlib.Tactic.ByContra

/-!
# Where added rules land

A budget that has no stylesheet yet takes the custom stylesheet of the document or
creates one in the head. From then on it keeps that node: a marked style element
below the head (`Budget.Settled`). Rules that are accepted land in a text child of
it (`Budget.add_lands`).

A document is looked at through its html element. `Site` says which nodes rendering
writes to; they are chosen so that html element, head and stylesheet are found again
after every growth.
-/

set_option autoImplicit false

namespace FirstPaint

/-- The element is a custom stylesheet. -/
def Element.isCustomStyle (element : Element) : Bool :=
  Ascii.sameName element.tag "style" && element.attributes.contains customStyleMarker

/-- The element is no boilerplate. -/
def Element.NoBoilerplate (element : Element) : Prop := element.belongsToBoilerplate = false

/-- The element is neither boilerplate nor a custom stylesheet. Apart from the
stylesheet of a budget, only such elements are added. -/
def Element.Plain (element : Element) : Prop :=
  element.NoBoilerplate ∧ element.isCustomStyle = false

namespace Tree

/-- A document that is being rendered. Attributes are written to some of its nodes,
to no boilerplate and no style among them. Head, custom stylesheets and new nodes may
receive children; the document and the html element receive none. -/
structure Site (scope : Scope) (tree : Tree) (html : NodeId) : Prop where
  forest : tree.Forest
  html? : tree.html? = some html
  rootApart : ¬ scope.given root
  htmlApart : ¬ scope.given html
  headReceives : ∀ {head}, tree.head? = some head → scope.given head
  styleReceives : ∀ {head style}, tree.head? = some head → tree.Below style head →
    tree.isStyleMarked style customStyleMarker = true → scope.given style
  newReceives : ∀ {id}, tree.size ≤ id → scope.given id
  writtenInside : ∀ id, scope.written id → id < tree.size
  writtenPlain : ∀ {id}, scope.written id →
    tree.isTagged id "style" = false ∧ tree.isTagged id "noscript" = false

/-- A node is a custom stylesheet below the head. -/
def IsCustomStyle (tree : Tree) (style : NodeId) : Prop :=
  ∃ head, tree.head? = some head ∧ tree.Below style head ∧
    tree.isStyleMarked style customStyleMarker = true

section Site

variable {scope : Scope} {added : Element → Prop} {tree after : Tree} {html head style : NodeId}

theorem isTagged_style_of_isStyleMarked {id : NodeId} {marker : String}
    (marked : tree.isStyleMarked id marker = true) : tree.isTagged id "style" = true :=
  (Bool.and_eq_true_iff.mp marked).1

theorem isStyleMarked_congr {id : NodeId} (same : after.kind? id = tree.kind? id)
    (marker : String) : after.isStyleMarked id marker = tree.isStyleMarked id marker := by
  rw [isStyleMarked, isTagged_congr (tag?_congr same), hasAttribute_congr same, isStyleMarked]

theorem isStyleMarked_eq (id : NodeId) :
    tree.isStyleMarked id customStyleMarker = (tree.element? id).any Element.isCustomStyle := by
  cases found : tree.element? id with
  | none => simp [isStyleMarked, isTagged, tag?, found]
  | some element =>
      simp [isStyleMarked, isTagged, tag?, hasAttribute, found, Element.isCustomStyle]

/-- The stylesheet that is found is a style. -/
theorem isTagged_of_customStyle? (found : tree.customStyle? = some style) :
    tree.isTagged style "style" = true := by
  obtain ⟨_, -, first⟩ := Option.bind_eq_some_iff.mp found
  have marked := List.find?_some first
  exact isTagged_style_of_isStyleMarked (by simpa using marked)

theorem IsCustomStyle.isTagged (custom : tree.IsCustomStyle style) :
    tree.isTagged style "style" = true := by
  obtain ⟨_, _, _, marked⟩ := custom
  exact isTagged_style_of_isStyleMarked marked

theorem IsCustomStyle.lt_size (custom : tree.IsCustomStyle style) : style < tree.size :=
  lt_size_of_isTagged custom.isTagged

/-- The stylesheet that is found is one below the head. -/
theorem Forest.isCustomStyle_of_customStyle? (forest : tree.Forest)
    (found : tree.customStyle? = some style) : tree.IsCustomStyle style := by
  obtain ⟨head, headFound, first⟩ := Option.bind_eq_some_iff.mp found
  refine ⟨head, headFound, ?_, ?_⟩
  · exact forest.mem_descendants_iff.mp (List.mem_of_find?_eq_some first)
  · simpa using List.find?_some first

/-- An element without the tags of boilerplate is none. -/
theorem not_belongsToBoilerplate_of_not_isTagged {id : NodeId}
    (noStyle : tree.isTagged id "style" = false)
    (noNoscript : tree.isTagged id "noscript" = false) :
    (tree.element? id).any Element.belongsToBoilerplate = false := by
  cases found : tree.element? id with
  | none => rfl
  | some element =>
      have differs : ∀ {tag}, tree.isTagged id tag = false → (element.tag == tag) = false := by
        intro tag other
        refine beq_eq_false_iff_ne.mpr fun same => ?_
        simp [Tree.isTagged, Tree.tag?, found, same, Ascii.sameName] at other
      simp only [Option.any_some, Element.belongsToBoilerplate, differs noStyle, differs noNoscript,
        Bool.false_and, Bool.or_false]

namespace Site

section Kept

variable (site : Site scope tree html)
  (grows : Grows scope added tree after)
include site grows

theorem html?_of_grows : after.html? = some html :=
  grows.html? site.forest site.html? site.rootApart

theorem head?_of_grows : after.head? = tree.head? :=
  grows.head? site.forest site.html? site.rootApart site.htmlApart

theorem isStyleMarked_of_grows {marker : String} (inside : style < tree.size) :
    after.isStyleMarked style marker = tree.isStyleMarked style marker := by
  by_cases written : scope.written style
  · obtain ⟨plain, -⟩ := site.writtenPlain written
    simp only [Tree.isStyleMarked, grows.isTagged inside, plain, Bool.false_and]
  · exact grows.isStyleMarked inside written marker

theorem grown : Site scope after html where
  forest := grows.forest
  html? := site.html?_of_grows grows
  rootApart := site.rootApart
  htmlApart := site.htmlApart
  headReceives found := site.headReceives (by rwa [← site.head?_of_grows grows])
  styleReceives {head style} found below marked := by
    rw [site.head?_of_grows grows] at found
    by_cases inside : style < tree.size
    · rw [grows.below_iff site.forest inside] at below
      rw [site.isStyleMarked_of_grows grows inside] at marked
      exact site.styleReceives found below marked
    · exact site.newReceives (Nat.le_of_not_lt inside)
  newReceives outside := site.newReceives (Nat.le_trans grows.size_le outside)
  writtenInside id written := Nat.lt_of_lt_of_le (site.writtenInside id written) grows.size_le
  writtenPlain {id} written := by
    have inside := site.writtenInside id written
    rw [grows.isTagged inside, grows.isTagged inside]
    exact site.writtenPlain written

/-- What belongs to the boilerplate stays the same. -/
theorem belongsToBoilerplate_of_grows {id : NodeId} (inside : id < tree.size) :
    (after.element? id).any Element.belongsToBoilerplate =
      (tree.element? id).any Element.belongsToBoilerplate := by
  by_cases written : scope.written id
  · have plain : ∀ {other : Tree}, other.tag? id = tree.tag? id →
        (other.element? id).any Element.belongsToBoilerplate = false := fun {other} same => by
      obtain ⟨noStyle, noNoscript⟩ := site.writtenPlain written
      rw [← isTagged_congr same] at noStyle noNoscript
      exact not_belongsToBoilerplate_of_not_isTagged noStyle noNoscript
    rw [plain (grows.tag? inside), plain rfl]
  · rw [grows.element? inside written]

theorem isCustomStyle_of_grows (custom : tree.IsCustomStyle style) :
    after.IsCustomStyle style := by
  obtain ⟨head, found, below, marked⟩ := custom
  refine ⟨head, ?_, grows.below_of_below below, ?_⟩
  · rw [site.head?_of_grows grows, found]
  · rwa [site.isStyleMarked_of_grows grows (lt_size_of_isTagged
      (isTagged_style_of_isStyleMarked marked))]

end Kept

theorem mono {smaller : Scope} (site : Site scope tree html)
    (written : ∀ id, smaller.written id → scope.written id)
    (given : smaller.given = scope.given) :
    Site smaller tree html where
  forest := site.forest
  html? := site.html?
  rootApart := given ▸ site.rootApart
  htmlApart := given ▸ site.htmlApart
  headReceives found := given ▸ site.headReceives found
  styleReceives found below marked := given ▸ site.styleReceives found below marked
  newReceives outside := given ▸ site.newReceives outside
  writtenInside id member := site.writtenInside id (written id member)
  writtenPlain member := site.writtenPlain (written _ member)

theorem receives_of_isCustomStyle (site : Site scope tree html)
    (custom : tree.IsCustomStyle style) : scope.given style := by
  obtain ⟨head, found, below, marked⟩ := custom
  exact site.styleReceives found below marked

end Site

end Site

end Tree

namespace Budget

/-- The stylesheet of a budget, once it is at hand, is a custom stylesheet. -/
def Settled (budget : Budget) (tree : Tree) : Prop :=
  ∀ style, budget.style? = some style → tree.IsCustomStyle style

/-- Work on a document with a budget: the tree grows, a stylesheet that is at hand
stays, and the text of every accepted addition is in the stylesheet afterwards. A
stylesheet that comes to hand was in the tree or is a child of the head. -/
structure Lands (scope : Scope) (accepted : String → Prop) (budget : Budget) (tree : Tree)
    (later : Budget) (after : Tree) : Prop where
  grows : tree.Grows scope Element.NoBoilerplate after
  plain : later.style? = none → tree.Grows scope Element.Plain after
  settled : later.Settled after
  keeps : ∀ {style}, budget.style? = some style → later.style? = some style
  origin : ∀ {style}, budget.style? = none → later.style? = some style →
    style < tree.size ∨ ∃ head, tree.head? = some head ∧ after.parent? style = some head
  holds : ∀ {css}, accepted css →
    ∃ style, later.style? = some style ∧ after.HoldsText style css

/-- A new stylesheet is no boilerplate. -/
theorem customStyle_noBoilerplate :
    (Element.ofPairs "style" [(customStyleMarker, "")]).NoBoilerplate := by
  unfold Element.NoBoilerplate
  with_unfolding_all decide

section Add

variable {scope : Scope} {added : Element → Prop} {tree after : Tree} {html : NodeId}
  {budget : Budget}

theorem Settled.of_missing (missing : budget.style? = none) : budget.Settled tree :=
  fun _ found => absurd (missing.symm.trans found) (by simp)

theorem Settled.grows (settled : budget.Settled tree) (site : tree.Site scope html)
    (grows : tree.Grows scope added after) : budget.Settled after :=
  fun style found => site.isCustomStyle_of_grows grows (settled style found)

namespace Lands

variable {accepted additional : String → Prop} {later last : Budget} {final : Tree}

/-- Growth by itself, without any addition. -/
theorem of_grows (site : tree.Site scope html) (settled : budget.Settled tree)
    (grows : tree.Grows scope Element.Plain after) :
    Lands scope (fun _ => False) budget tree budget after where
  grows := grows.adding fun _ plain => plain.1
  plain _ := grows
  settled := settled.grows site grows
  keeps found := found
  origin missing found := absurd (missing.symm.trans found) (by simp)
  holds none := none.elim

theorem trans (site : tree.Site scope html)
    (earlier : Lands scope accepted budget tree later after)
    (next : Lands scope additional later after last final) :
    Lands scope (fun css => accepted css ∨ additional css) budget tree last final where
  grows := earlier.grows.trans site.writtenInside next.grows
  plain missing := by
    have before : later.style? = none := by
      cases found : later.style? with
      | none => rfl
      | some style => rw [next.keeps found] at missing; exact missing
    exact (earlier.plain before).trans site.writtenInside (next.plain missing)
  settled := next.settled
  keeps found := next.keeps (earlier.keeps found)
  origin {style} missing found := by
    cases before : later.style? with
    | some other =>
        -- A stylesheet that was at hand already has kept its parent.
        rw [next.keeps before] at found
        cases found
        have inside := (earlier.settled style before).lt_size
        rw [next.grows.parent? inside]
        exact earlier.origin missing before
    | none =>
        rcases next.origin before found with inside | ⟨head, headFound, link⟩
        · left
          by_contra isNew
          -- No stylesheet was added before one was at hand.
          obtain ⟨head, -, -, marked⟩ := next.settled style found
          have grown := earlier.plain before
          rw [(site.grown grown).isStyleMarked_of_grows next.grows inside,
            Tree.isStyleMarked_eq] at marked
          obtain ⟨element, known, custom⟩ := (Option.any_eq_true _ _).mp marked
          have plain := grown.fresh (Nat.le_of_not_lt isNew) known
          rw [plain.2] at custom
          exact absurd custom (by simp)
        · rw [site.head?_of_grows earlier.grows] at headFound
          exact .inr ⟨head, headFound, link⟩
  holds {css} landed := by
    rcases landed with before | now
    · obtain ⟨style, found, holds⟩ := earlier.holds before
      exact ⟨style, next.keeps found, holds.grows next.grows⟩
    · exact next.holds now

theorem mono (lands : Lands scope accepted budget tree later after)
    (fewer : ∀ css, additional css → accepted css) :
    Lands scope additional budget tree later after :=
  { lands with holds := fun landed => lands.holds (fewer _ landed) }

end Lands

/-- A stylesheet that is created comes to the end of the head. -/
theorem create_spec (site : tree.Site scope html) {head : NodeId}
    (found : tree.head? = some head) :
    let after := (tree.createElement "style" [(customStyleMarker, "")]).2.append head tree.size
    tree.Grows scope Element.NoBoilerplate after ∧ after.IsCustomStyle tree.size ∧
      after.parent? tree.size = some head := by
  intro after
  obtain ⟨_, -, link⟩ := site.forest.exists_html_of_head? found
  have inside := Tree.lt_size_of_parent? link
  have grows : tree.Grows scope Element.NoBoilerplate after :=
    .append_create site.forest inside (site.headReceives found) customStyle_noBoilerplate
  have placed := site.forest.parent?_append_create inside
    (.element (Element.ofPairs "style" [(customStyleMarker, "")]))
  have kind := site.forest.kind?_append_create inside
    (.element (Element.ofPairs "style" [(customStyleMarker, "")]))
  refine ⟨grows, ⟨head, ?_, Tree.below_of_parent? placed, ?_⟩, placed⟩
  · rw [site.head?_of_grows grows, found]
  · rw [Tree.isStyleMarked_eq]
    simp only [after, Tree.createElement, Tree.element?_eq_some_iff.mpr kind, Option.any_some]
    with_unfolding_all decide

/-- Looking for the stylesheet adds nothing to it. Without a refusal it is at hand. -/
theorem locate_lands (site : tree.Site scope html) (missing : budget.style? = none) :
    let result := budget.locate tree
    Lands scope (fun _ => False) budget tree result.budget result.tree ∧
      (result.refusal? = none → ∃ style, result.budget.style? = some style) := by
  intro result
  have settled : budget.Settled tree := .of_missing missing
  have unknown : ∀ {style}, budget.style? = some style → ∀ {result : Prop}, result :=
    fun found => absurd (missing.symm.trans found) (by simp)
  cases present : tree.customStyle? with
  | some style =>
      have custom := site.forest.isCustomStyle_of_customStyle? present
      have same : result = BudgetResult.mk none
          { budget with style? := some style, used := max budget.used tree.authorStyleSize }
          tree := by
        simp only [result, locate, present]
      rw [same]
      refine ⟨⟨.refl site.forest, fun none => by simp at none, ?_, fun found => unknown found,
        ?_, False.elim⟩, fun _ => ⟨style, rfl⟩⟩
      · rintro other ⟨⟩
        exact custom
      · rintro other _ ⟨⟩
        exact .inl custom.lt_size
  | none =>
      cases headFound : tree.head? with
      | none =>
          have same : result = BudgetResult.mk (some .missingHead) budget tree := by
            simp only [result, locate, present, headFound]
          rw [same]
          exact ⟨.of_grows site settled (.refl site.forest),
            fun accepted => by simp at accepted⟩
      | some head =>
          obtain ⟨grows, custom, placed⟩ := create_spec site headFound
          have same : result = BudgetResult.mk none { budget with style? := some tree.size }
              ((tree.createElement "style" [(customStyleMarker, "")]).2.append head tree.size) := by
            simp only [result, locate, present, headFound]
            rfl
          rw [same]
          refine ⟨⟨grows, fun none => by simp at none, ?_, fun found => unknown found, ?_,
            False.elim⟩, fun _ => ⟨_, rfl⟩⟩
          · rintro other ⟨⟩
            exact custom
          · rintro other _ ⟨⟩
            exact .inr ⟨head, headFound, placed⟩

theorem charge_lands (site : tree.Site scope html) (settled : budget.Settled tree)
    {style : NodeId} (found : budget.style? = some style) (css : String) :
    let result := budget.charge tree style css
    Lands scope (fun text => result.refusal? = none ∧ text = css) budget tree
      result.budget result.tree := by
  intro result
  cases refused : budget.refusal? css.utf8ByteSize with
  | some refusal =>
      have same : result = BudgetResult.mk (some refusal) budget tree := by
        simp only [result, charge, refused]
      rw [same]
      refine (Lands.of_grows site settled (.refl site.forest)).mono ?_
      rintro text ⟨accepted, -⟩
      exact absurd accepted (by simp)
  | none =>
      have same : result = BudgetResult.mk none
          { budget with used := budget.used + css.utf8ByteSize } (tree.appendText style css) := by
        simp only [result, charge, refused]
      rw [same]
      have custom := settled style found
      obtain ⟨grows, holds⟩ : tree.Grows scope Element.NoBoilerplate _ ∧ _ :=
        site.forest.appendText_spec custom.lt_size (site.receives_of_isCustomStyle custom) css
      refine ⟨grows, fun missing => absurd (missing.symm.trans found) (by simp),
        fun other known => settled.grows site grows other known, id,
        fun missing => absurd (missing.symm.trans found) (by simp), ?_⟩
      rintro text ⟨-, rfl⟩
      exact ⟨style, found, holds⟩

/-- Rules that are accepted land in the stylesheet of the budget, which is a custom
stylesheet below the head. -/
theorem add_lands (site : tree.Site scope html) (settled : budget.Settled tree)
    (css : String) :
    let result := budget.add tree css
    Lands scope (fun text => result.refusal? = none ∧ text = css) budget tree
      result.budget result.tree := by
  intro result
  cases refused : budget.refusal? css.utf8ByteSize with
  | some refusal =>
      have same : result = BudgetResult.mk (some refusal) budget tree := by
        simp only [result, add, refused]
      rw [same]
      refine (Lands.of_grows site settled (.refl site.forest)).mono ?_
      rintro text ⟨accepted, -⟩
      exact absurd accepted (by simp)
  | none =>
      cases known : budget.style? with
      | some style =>
          have same : result = budget.charge tree style css := by
            simp only [result, add, refused, known]
          rw [same]
          exact charge_lands site settled known css
      | none =>
          obtain ⟨located, atHand⟩ := locate_lands site known
          cases accepted : (budget.locate tree).refusal? with
          | some refusal =>
              have same : result = budget.locate tree := by
                simp only [result, add, refused, known, accepted]
              rw [same]
              refine located.mono ?_
              rintro text ⟨allowed, -⟩
              exact absurd (accepted.symm.trans allowed) (by simp)
          | none =>
              obtain ⟨style, found⟩ := atHand accepted
              have same : result =
                  (budget.locate tree).budget.charge (budget.locate tree).tree style css := by
                simp only [result, add, refused, known, accepted, found]
              rw [same]
              have charged := charge_lands (site.grown located.grows) located.settled found css
              exact (located.trans site charged).mono fun text landed => .inr landed

end Add

end Budget

end FirstPaint
