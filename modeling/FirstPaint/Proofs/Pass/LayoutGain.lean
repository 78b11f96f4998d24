import FirstPaint.Proofs.Pass.Handling
import FirstPaint.Proofs.Stylesheet.Covering

/-!
# Style attributes along the visits

What the visit of an element can add to the style attributes of the body is known from the
element as it was in the input: nothing inside of templates and for audio players, and else
the style of its box (`Tree.layoutGain`). Other visits do not change it, so over a whole run
the amounts add up (`visits_covers`).

Moving attributes writes no style attribute. An id may come, and blocking attributes go.
-/

set_option autoImplicit false

namespace FirstPaint

/-! ## What layouts can write -/

/-- Bytes of style attributes that come from the layout of an element. -/
def Element.layoutStyleSize (element : Element) : Nat :=
  if Ascii.sameName element.tag audioTag then 0
  else
    match element.box with
    | .ok box => box.styleSize
    | .error _ => 0

namespace Tree

/-- Bytes that the visit of a node can add to the style attributes of the body. -/
def layoutGain (tree : Tree) (id : NodeId) : Nat :=
  if tree.inBody id && !tree.isInside id "template" then
    ((tree.element? id).map Element.layoutStyleSize).getD 0
  else 0

/-- Bytes that layouts can add to the style attributes of the body. -/
def layoutGrowth (tree : Tree) : Nat :=
  ((tree.elementsBelow root fun _ element => isExtensionTag element.tag).map tree.layoutGain).sum

section Gain

variable {scope : Scope} {added : Element → Prop} {tree after : Tree} {html id : NodeId}

theorem Site.body?_of_grows (site : Site scope tree html) (grows : Grows scope added tree after) :
    after.body? = tree.body? := by
  have htmlInside := lt_size_of_isTagged (html?_eq_some_iff.mp site.html?).2
  refine body?_congr fun tag => ?_
  refine htmlChild?_congr site.html? (site.html?_of_grows grows)
    (grows.children htmlInside site.htmlApart) ?_ tag
  exact fun child member => grows.tag? (site.forest.child_lt member)

theorem Site.inBody_of_grows (site : Site scope tree html) (grows : Grows scope added tree after)
    (inside : id < tree.size) : after.inBody id = tree.inBody id := by
  rw [Bool.eq_iff_iff, grows.forest.inBody_iff, site.forest.inBody_iff,
    site.body?_of_grows grows]
  refine exists_congr fun body => and_congr_right fun _ => ?_
  rw [grows.below_iff site.forest inside]

/-- What a visit can add is the same as long as the element is. -/
theorem Site.layoutGain_of_grows (site : Site scope tree html)
    (grows : Grows scope added tree after) (inside : id < tree.size)
    (same : after.element? id = tree.element? id) : after.layoutGain id = tree.layoutGain id := by
  rw [layoutGain, layoutGain, site.inBody_of_grows grows inside,
    grows.isInside site.forest inside, same]

theorem Grows.isExtension (grows : Grows scope added tree after)
    (extension : tree.IsExtension id) : after.IsExtension id := by
  have inside := extension.lt_size
  obtain ⟨below, tag, tagged, start⟩ := extension
  exact ⟨grows.below_of_below below, tag, (grows.tag? inside).trans tagged, start⟩

/-- An extension element is none of the parts of a document. -/
theorem IsExtension.apart (extension : tree.IsExtension id) (forest : tree.Forest) :
    id ≠ root ∧ (∀ {html}, tree.html? = some html → id ≠ html) ∧ tree.body? ≠ some id := by
  refine ⟨?_, ?_, ?_⟩
  · rintro rfl
    exact forest.not_below_self extension.1
  · rintro html found rfl
    have isHtml := (html?_eq_some_iff.mp found).2
    rw [extension.isTagged_eq_false (by with_unfolding_all decide)] at isHtml
    exact absurd isHtml (by simp)
  · intro found
    obtain ⟨_, -, -, tagged⟩ := body?_eq_some found
    rw [extension.isTagged_eq_false (by with_unfolding_all decide),
      extension.isTagged_eq_false (by with_unfolding_all decide)] at tagged
    exact absurd tagged (by simp)

end Gain

end Tree

/-! ## One visit -/

section Visit

variable {scope : Scope} {first tree : Tree} {limit written : Nat} {budget : Budget}
  {html id : NodeId} {element : Element}

/-- Rules for an element are added; its style attribute stays. -/
theorem addRules_covers (site : tree.Site scope html) (settled : budget.Settled tree)
    (mayWrite : scope.written id) (isElement : tree.element? id = some element)
    (noStyle : Ascii.sameName element.tag "style" = false)
    (covers : budget.Covers first limit written tree) (counted : first.uncounted = 0)
    (found : List FoundStyle) :
    let result := addRules budget tree id found
    result.budget.Covers first limit written result.tree := by
  intro result
  obtain ⟨attributes, named, -⟩ := element?_ensureId isElement
  have grows : tree.Grows scope Element.Plain (tree.ensureId id).2 := ensureId_grows site mayWrite
  have coversNamed := covers.inlined ((Tree.Rewritten.ensureId tree id).unstyled covers.forest
    isElement noStyle (attribute?_ensureId isElement))
  have added := coversNamed.add counted (rulesFor found (tree.ensureId id).1)
  have addedElement := element?_add (site.grown grows) (settled.grows site grows) named
    (rulesFor found (tree.ensureId id).1)
  simp only [result, addRules]
  split
  next => exact added
  next =>
    split
    next => exact added
    next =>
      exact added.inlined (((Tree.Rewritten.refl _ id).eraseAttribute "id").unstyled added.forest
        addedElement noStyle (Tree.attribute?_eraseAttribute_of_ne (by with_unfolding_all decide)))

theorem moveToStylesheet_covers (site : tree.Site scope html) (settled : budget.Settled tree)
    (mayWrite : scope.written id) (isElement : tree.element? id = some element)
    (noStyle : Ascii.sameName element.tag "style" = false)
    (covers : budget.Covers first limit written tree) (counted : first.uncounted = 0) :
    let result := moveToStylesheet budget tree id
    result.budget.Covers first limit written result.tree := by
  intro result
  have styles : (tree.element? id).map Element.blockingStyles = some element.blockingStyles := by
    rw [isElement, Option.map_some]
  cases read : element.blockingStyles with
  | error problem =>
      rw [read] at styles
      simp only [result, moveToStylesheet, styles]
      exact covers
  | ok found =>
      rw [read] at styles
      have erased : ∀ {later : Budget} {middle : Tree} {attributes : Attributes},
          later.Covers first limit written middle →
          middle.element? id = some ⟨element.tag, attributes⟩ →
          later.Covers first limit written (eraseFound middle id found) := by
        intro later middle attributes covers isElement
        exact covers.inlined ((Tree.Rewritten.eraseFound middle id found).unstyled covers.forest
          isElement noStyle
            (attribute?_eraseFound (readBlocking_apart read (by with_unfolding_all decide))))
      simp only [result, moveToStylesheet, styles]
      split
      next => exact erased covers isElement
      next =>
        have added := addRules_covers site settled mayWrite isElement noStyle covers counted found
        obtain ⟨-, accepted⟩ := element?_addRules site settled mayWrite isElement found
        cases problem : (addRules budget tree id found).problem? with
        | some reason => exact added
        | none =>
            obtain ⟨attributes, isNamed, -⟩ := accepted problem
            exact erased added isNamed

end Visit

namespace Rendering

section Visits

variable {scope : Scope} {first : Tree} {limit written : Nat} {state : Rendering} {html id : NodeId}

/-- Treating an element adds the style of its box at most. -/
theorem Treated.covers {budget : Budget} {tree after : Tree}
    (treated : Treated budget tree id after) (site : tree.Site scope html)
    (settled : budget.Settled tree) (mayWrite : scope.written id)
    (extension : tree.IsExtension id) (outside : tree.isInside id "template" = false)
    (covers : budget.Covers first limit written tree) (counted : first.uncounted = 0) :
    (moveToStylesheet budget tree id).budget.Covers first limit (written + tree.layoutGain id)
      after := by
  obtain ⟨element, isElement, -⟩ := extension.exists_element
  have noStyle : Ascii.sameName element.tag "style" = false :=
    (Tree.isTagged_of_element? isElement "style").symm.trans (site.writtenPlain mayWrite).1
  have gain : tree.layoutGain id =
      if tree.inBody id then element.layoutStyleSize else 0 := by
    rw [Tree.layoutGain, outside, isElement, Bool.not_false, Bool.and_true, Option.map_some,
      Option.getD_some]
  have lands := moveToStylesheet_lands site settled mayWrite
  have moved := moveToStylesheet_covers site settled mayWrite isElement noStyle covers counted
  obtain ⟨-, moves⟩ := element?_moveToStylesheet site settled mayWrite isElement
  rw [gain]
  cases treated with
  | moved => exact moved.mono (Nat.le_add_right _ _)
  | @boxed box succeeds computed =>
      obtain ⟨attributes, isMoved, wrote⟩ := moves succeeds
      rw [ofElement_eq_box isElement isMoved wrote] at computed
      have tagged := Tree.isTagged_of_element? wrote audioTag
      dsimp only at tagged
      rw [Element.layoutStyleSize, computed]
      dsimp only
      cases audio : Ascii.sameName element.tag audioTag with
      | true =>
          rw [LayoutBox.applyTo_of_audio (tagged.trans audio)]
          exact moved.mono (Nat.le_add_right _ _)
      | false =>
          obtain ⟨noRoot, noHtml, noBody⟩ :=
            (lands.grows.isExtension extension).apart lands.grows.forest
          have applied := box.applyTo_inlined lands.grows.forest wrote noStyle noRoot noHtml
            noBody (tagged.trans audio)
          rw [site.inBody_of_grows lands.grows extension.lt_size] at applied
          exact moved.inlined applied

/-- One visit. -/
theorem visit_covers (site : state.tree.Site scope html)
    (settled : state.budget.Settled state.tree) (mayWrite : scope.written id)
    (extension : state.tree.IsExtension id)
    (covers : state.budget.Covers first limit written state.tree)
    (counted : first.uncounted = 0) :
    (state.visit id).budget.Covers first limit (written + state.tree.layoutGain id)
      (state.visit id).tree := by
  have visited := visit_visited state id
  generalize state.visitRules? id = rules? at visited
  generalize (state.visit id).budget = budget at visited ⊢
  generalize (state.visit id).tree = after at visited ⊢
  cases visited with
  | skipped => exact covers.mono (Nat.le_add_right _ _)
  | treated outside treated =>
      exact treated.covers site settled mayWrite extension outside covers counted

/-- Visits one after another: what they can add adds up. -/
theorem visits_covers {ids : List NodeId} (distinct : ids.Nodup) (site : state.tree.Site scope html)
    (settled : state.budget.Settled state.tree)
    (reached : ∀ id ∈ ids, scope.written id ∧ scope.given id)
    (extensions : ∀ id ∈ ids, state.tree.IsExtension id)
    (covers : state.budget.Covers first limit written state.tree)
    (counted : first.uncounted = 0) :
    (ids.foldl visit state).budget.Covers first limit
      (written + (ids.map state.tree.layoutGain).sum) (ids.foldl visit state).tree := by
  induction ids generalizing state written with
  | nil => exact covers
  | cons id rest ih =>
      obtain ⟨apart, others⟩ := List.nodup_cons.mp distinct
      rw [List.forall_mem_cons] at reached extensions
      obtain ⟨⟨mayWrite, receives⟩, reachedLater⟩ := reached
      obtain ⟨extension, later⟩ := extensions
      have lands := visit_lands site settled mayWrite receives
      have visited := visit_covers site settled mayWrite extension covers counted
      -- The first visit leaves the elements that come later alone.
      have gains : rest.map (state.visit id).tree.layoutGain = rest.map state.tree.layoutGain := by
        refine List.map_congr_left fun other member => ?_
        have isExtension := later other member
        obtain ⟨noStyle, noHead, -⟩ := isExtension.untagged rfl
        have onlyFirst : ∀ visited ∈ [id], scope.written visited ∧ scope.given visited := by
          simpa using ⟨mayWrite, receives⟩
        have same : state.tree.SameAt (state.visit id).tree other := by
          refine visits_sameAt site settled onlyFirst isExtension.lt_size ?_ noStyle noHead
          rintro isFirst
          rw [List.mem_singleton.mp isFirst] at member
          exact apart member
        exact site.layoutGain_of_grows lands.grows isExtension.lt_size same.element?
      have rest := ih others (site.grown lands.grows) lands.settled reachedLater
        (fun other member => lands.grows.isExtension (later other member)) visited
      rw [gains, Nat.add_assoc] at rest
      rwa [List.map_cons, List.sum_cons, List.foldl_cons]

end Visits

end Rendering

end FirstPaint
