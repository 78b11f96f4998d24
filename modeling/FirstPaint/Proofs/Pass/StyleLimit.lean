import FirstPaint.Proofs.Document.Precedence
import FirstPaint.Proofs.Pass.LayoutGain
import FirstPaint.Proofs.Pass.Migration
import Mathlib.Algebra.Order.BigOperators.Group.List
import Mathlib.Algebra.Order.Group.Nat

/-!
# Author styles of a rendered document

Rendering adds to the author styles in two ways. Rules go to the custom stylesheet through
the budget, and layouts write style attributes, for which no budget is asked. So what the
budget guards is the stylesheet together with the style attributes of the input; what the
layouts write comes on top of the limit, and it is no more than the input lets them write
(`renderAhead_styleSizes`).

The sweep takes nothing from the body. It takes content from the stylesheet at most, unless
the stylesheet goes with the boilerplate and another one takes its place
(`Tree.StylesheetSwept`).
-/

set_option autoImplicit false

namespace FirstPaint

/-! ## The sweep -/

namespace Tree

section Pruned

variable {before after : Tree} {ids : List NodeId} {html head : NodeId}
  (pruned : Pruned before after ids) (forest : before.Forest)
include pruned forest

/-- What is left below a node is listed in its old order. -/
theorem Pruned.descendants_sublist (top : NodeId) :
    (after.descendants top).Sublist (before.descendants top) := by
  refine forest.downward (motive := fun top =>
    (after.descendants top).Sublist (before.descendants top)) ?_ top
  intro top ih
  rw [pruned.forest.descendants_eq, forest.descendants_eq, pruned.children]
  refine (List.filter_sublist.flatMap _).trans (List.Sublist.flatMap_right _ ?_)
  exact fun child member => (ih child member).cons_cons child

/-- A sum over what is left is no greater. -/
theorem Pruned.sumBelow_le {weight other : NodeId → Nat} (same : ∀ id, weight id = other id)
    (top : NodeId) : after.sumBelow weight top ≤ before.sumBelow other top := by
  rw [sumBelow, sumBelow, List.map_congr_left fun id _ => same id]
  exact ((pruned.descendants_sublist forest top).map other).sum_le_sum fun _ _ => Nat.zero_le _

section Head

variable (found : before.html? = some html) (headFound : before.head? = some head)
  (inHead : ∀ id ∈ ids, before.Below id head)
include found headFound inHead

/-- The custom stylesheet is found again if it stays in the head. -/
theorem Pruned.customStyle? {style : NodeId} (present : before.customStyle? = some style)
    (stays : after.Below style head) : after.customStyle? = some style := by
  rw [Tree.customStyle?, headFound, Option.bind_eq_bind, Option.bind_some] at present
  rw [Tree.customStyle?, pruned.head? forest found headFound inHead, Option.bind_eq_bind,
    Option.bind_some]
  refine find?_of_sublist (pruned.descendants_sublist forest head)
    (forest.nodup_descendants head) ?_ (pruned.forest.mem_descendants_iff.mpr stays)
  rw [← present]
  exact List.find?_congr fun id _ => isStyleMarked_congr (pruned.kind? id) customStyleMarker

/-- Nodes that are taken out of the head add nothing to the author styles, provided that the
stylesheet stays. -/
theorem Pruned.sizes_le
    (stays : ∀ {style}, before.customStyle? = some style → after.Below style head) :
    after.stylesheetSize ≤ before.stylesheetSize ∧
      after.inlineStyleSize ≤ before.inlineStyleSize := by
  have headStays := pruned.head? forest found headFound inHead
  have contents : ∀ id, after.contentSize id = before.contentSize id :=
    fun id => contentSize_congr (pruned.kind? id)
  have inlines : ∀ id, after.inlineSize id = before.inlineSize id :=
    fun id => inlineSize_congr (element?_congr (pruned.kind? id))
  constructor
  · cases present : before.customStyle? with
    | none =>
        have absent : after.customStyle? = none := by
          refine pruned.forest.customStyle?_eq_none_iff.mpr ?_
          rintro ⟨style, other, otherFound, below, marked⟩
          rw [headStays] at otherFound
          cases otherFound
          refine forest.customStyle?_eq_none_iff.mp present ⟨style, head, headFound, ?_, ?_⟩
          · exact pruned.below_of_below below
          · rwa [isStyleMarked_congr (pruned.kind? style)] at marked
        rw [stylesheetSize_of_none absent]
        exact Nat.zero_le _
    | some style =>
        have left := pruned.customStyle? forest found headFound inHead present (stays present)
        rw [stylesheetSize_of_customStyle? left, stylesheetSize_of_customStyle? present]
        exact pruned.sumBelow_le forest contents style
  · have above := below_of_parent? (forest.parent?_of_head? found headFound)
    have parts : ∀ tag, after.htmlChild? tag = before.htmlChild? tag := by
      refine htmlChild?_congr found (pruned.html? forest found headFound inHead)
        (pruned.children_eq fun child member => ?_) fun child _ => tag?_congr (pruned.kind? child)
      exact not_mem_of_above forest inHead above member
    have same := body?_congr parts
    cases present : before.body? with
    | none =>
        rw [inlineStyleSize_of_none (same.trans present)]
        exact Nat.zero_le _
    | some body =>
        rw [inlineStyleSize_of_body? (same.trans present), inlineStyleSize_of_body? present]
        exact pruned.sumBelow_le forest inlines body

end Head

end Pruned

end Tree

/-! ## A whole run -/

/-- A mark of the html element is no style. -/
theorem Tree.Forest.mark_inlined {tree : Tree} {html : NodeId} {name : String}
    (forest : tree.Forest) (found : tree.html? = some html)
    (apart : Ascii.lower name ≠ Ascii.lower "style") (value : String) :
    Inlined tree (tree.setAttribute html name value) 0 := by
  have tagged := (html?_eq_some_iff.mp found).2
  obtain ⟨element, isElement⟩ := Option.isSome_iff_exists.mp (isSome_element?_of_isTagged tagged)
  have noStyle : Ascii.sameName element.tag "style" = false :=
    (isTagged_of_element? isElement "style").symm.trans
      (isTagged_eq_false_of_isTagged tagged (by with_unfolding_all decide))
  refine ((Rewritten.refl tree html).setAttribute name value).unstyled forest isElement noStyle ?_
  rw [attribute?_of_element? (element?_setAttribute isElement name value),
    attribute?_of_element? isElement, Attributes.get?_insert_of_ne apart]

namespace Rendering

section Run

variable {state : Rendering} {html head : NodeId} {limit written : Nat} {first : Tree}

/-- The place for the style of the runtime is empty. -/
theorem addRuntimeStyle_covers (covers : state.budget.Covers first limit written state.tree)
    (headFound : state.tree.head? = some head) :
    (state.addRuntimeStyle head).budget.Covers first limit written
      (state.addRuntimeStyle head).tree := by
  have forest := covers.forest
  have isHead := Tree.isTagged_of_head? headFound
  have inside := Tree.lt_size_of_isTagged isHead
  obtain ⟨noRoot, noHtml⟩ := forest.apart_of_within_head headFound (.inl rfl)
  have noBody := Tree.body?_ne_head headFound
  have creates := Tree.createElement_brings forest "style" [("amp-runtime", "")]
    runtimeStyle_plain.2
  have empty : (Element.ofPairs "style" [("amp-runtime", "")]).styleSize = 0 :=
    Element.styleSize_ofPairs (by with_unfolding_all decide) "style"
  have parentless : (state.tree.createElement "style" [("amp-runtime", "")]).2.parent?
      state.tree.size = none :=
    (Tree.parent?_create _).trans (Tree.parent?_of_size_le (Nat.le_refl _))
  obtain ⟨after, done, brings, put⟩ := creates.prepend? forest inside parentless
  have inlined := brings.inlined forest put (fun _ => Tree.children_create _) inside noRoot noHtml
    noBody
  rw [empty, ite_self] at inlined
  have result : (state.addRuntimeStyle head).tree = after :=
    congrArg (Option.getD · (state.tree.createElement "style" [("amp-runtime", "")]).2) done
  rw [result]
  exact covers.inlined inlined

/-- The mark of the html element makes no difference to what is visited. -/
theorem extensions_marked (forest : state.tree.Forest) (html : NodeId) :
    (state.marked html).extensions = state.extensions := by
  have rewritten := (Tree.Rewritten.refl state.tree html).setAttribute layoutMarker ""
  have listed : (state.marked html).tree.descendants Tree.root =
      state.tree.descendants Tree.root :=
    forest.descendants_congr (forest.congr rewritten.toSameLinks) fun id _ => rewritten.children id
  unfold extensions Tree.elementsBelow
  rw [listed]
  refine List.filter_congr fun id _ => ?_
  have same := congrArg (Option.any isExtensionTag) (rewritten.tag?_eq id)
  rwa [Tree.tag?, Tree.tag?, Option.any_map, Option.any_map] at same

section Document

variable (forest : state.tree.Forest) (found : state.tree.html? = some html)
  (settled : state.budget.Settled state.tree)
include forest found settled

section Covers

variable (covers : state.budget.Covers first limit written state.tree)
  (counted : first.uncounted = 0)
include covers counted

/-- The visits add what layouts can write at most. -/
theorem visitAll_covers :
    (state.marked html).visitAll.budget.Covers first limit (written + state.tree.layoutGrowth)
      (state.marked html).visitAll.tree := by
  have site := forest.site found
  have grows := marked_grows forest found
  have isExtension : ∀ id ∈ (state.marked html).extensions, state.tree.IsExtension id :=
    fun id member => isExtension_of_mem forest found member
  have distinct : (state.marked html).extensions.Nodup :=
    (grows.forest.nodup_descendants Tree.root).filter _
  have visited : (state.marked html).visitAll.budget.Covers first limit
      (written + ((state.marked html).extensions.map (state.marked html).tree.layoutGain).sum)
      (state.marked html).visitAll.tree := visits_covers distinct
    (markedSite forest found) (settled_marked forest found settled)
    (fun id member => ⟨isExtension id member, .inr (.inl (isExtension id member))⟩)
    (fun id member => grows.isExtension (isExtension id member))
    (covers.inlined (forest.mark_inlined found (by with_unfolding_all decide) "")) counted
  have gains : (state.marked html).extensions.map (state.marked html).tree.layoutGain =
      state.extensions.map state.tree.layoutGain := by
    rw [← extensions_marked forest html]
    refine List.map_congr_left fun id member => ?_
    have extension := isExtension id member
    exact site.layoutGain_of_grows grows extension.lt_size (marked_sameAt found extension).element?
  rwa [gains] at visited

theorem prepared_covers (registry : ScriptRegistry) (headFound : state.tree.head? = some head) :
    (state.prepared registry html head).budget.Covers first limit
      (written + state.tree.layoutGrowth) (state.prepared registry html head).tree := by
  have visited := visitAll_covers forest found settled covers counted
  have headStays := (head?_visitAll forest found settled).trans headFound
  have styled := addRuntimeStyle_covers visited headStays
  obtain ⟨sameTree, sameBudget⟩ := checkScripts_eq registry
    ((state.marked html).visitAll.addRuntimeStyle head) head
  rw [prepared, sameTree, sameBudget]
  exact styled

end Covers

omit found settled in
/-- There is a limit for every document, as well as a first document with the same
stylesheet. -/
theorem exists_covers (missing : state.budget.style? = none) :
    ∃ first limit written, state.budget.Covers first limit written state.tree ∧
      first.uncounted = 0 ∧ first.customStyle? = state.tree.customStyle? := by
  cases present : state.tree.customStyle? with
  | some style =>
      refine ⟨state.tree, max state.budget.limit state.tree.authorStyleSize, 0, ?_, ?_, present⟩
      · exact
          { forest := forest
            budgetLimit := Nat.le_max_left _ _
            kept := fun found => found
            within := Nat.le_max_right _ _
            located := fun known => absurd (missing.symm.trans known) (by simp)
            atLeast := Nat.le_refl _
            atMost := Nat.le_refl _ }
      · exact Tree.uncounted_eq_zero_iff.mpr (.inl (by rw [present]; rfl))
  | none =>
      -- Style attributes that are there count as written.
      have noBody : Tree.empty.inlineStyleSize = 0 := by decide
      have noStyle : Tree.empty.customStyle? = none := by decide
      refine ⟨Tree.empty, state.budget.limit, state.tree.inlineStyleSize, ?_, ?_, ?_⟩
      · exact
          { forest := forest
            budgetLimit := Nat.le_refl _
            kept := fun found => absurd (noStyle.symm.trans found) (by simp)
            within := by
              rw [Tree.stylesheetSize_of_none present, noBody]
              exact Nat.zero_le _
            located := fun known => absurd (missing.symm.trans known) (by simp)
            atLeast := by
              rw [noBody]
              exact Nat.zero_le _
            atMost := by rw [noBody, Nat.zero_add] }
      · exact Tree.uncounted_eq_zero_iff.mpr (.inr noBody)
      · exact noStyle

/-- The stylesheet of the input and the stylesheet at hand are what is found before the
sweep. -/
theorem prepared_located (registry : ScriptRegistry) (headFound : state.tree.head? = some head)
    (missing : state.budget.style? = none) {style : NodeId}
    (known : state.tree.customStyle? = some style ∨
      (state.prepared registry html head).budget.style? = some style) :
    (state.prepared registry html head).tree.customStyle? = some style := by
  obtain ⟨first, limit, written, covers, counted, same⟩ := exists_covers forest missing
  have prepared := prepared_covers forest found settled covers counted registry headFound
  rcases known with present | atHand
  · exact prepared.kept (same.trans present)
  · exact (prepared.located atHand).1

/-- The stylesheet before the sweep is that of the input, or a new child of the head. -/
theorem prepared_customStyle? (registry : ScriptRegistry)
    (headFound : state.tree.head? = some head) (missing : state.budget.style? = none)
    {style : NodeId}
    (present : (state.prepared registry html head).tree.customStyle? = some style) :
    state.tree.customStyle? = some style ∨ state.tree.size ≤ style ∧
      (state.prepared registry html head).tree.parent? style = some head := by
  have site := forest.site found
  have grows := prepared_grows forest found registry settled headFound
  have lands := prepared_lands forest found registry settled headFound
  have sameSize : (state.marked html).tree.size = state.tree.size := Tree.size_modifyAttributes _
  cases before : state.tree.customStyle? with
  | some other =>
      left
      have kept := prepared_located forest found settled registry headFound missing (.inl before)
      rw [← present, kept]
  | none =>
      right
      have custom := grows.forest.isCustomStyle_of_customStyle? present
      have isNew : state.tree.size ≤ style := by
        refine Nat.le_of_not_lt fun inside => ?_
        obtain ⟨other, otherFound, below, marked⟩ := custom
        rw [site.head?_of_grows grows] at otherFound
        rw [grows.below_iff forest inside] at below
        rw [site.isStyleMarked_of_grows grows inside] at marked
        exact forest.customStyle?_eq_none_iff.mp before ⟨style, other, otherFound, below, marked⟩
      refine ⟨isNew, ?_⟩
      cases known : (state.prepared registry html head).budget.style? with
      | some other =>
          have same :=
            prepared_located forest found settled registry headFound missing (.inr known)
          rw [present] at same
          cases same
          rcases lands.origin missing known with inside | ⟨parent, parentFound, link⟩
          · rw [sameSize] at inside
            exact absurd inside (Nat.not_lt_of_le isNew)
          · rw [site.head?_of_grows (marked_grows forest found), headFound] at parentFound
            cases parentFound
            exact link
      | none =>
          -- Without a stylesheet at hand, none has been added.
          obtain ⟨_, _, _, marked⟩ := custom
          rw [Tree.isStyleMarked_eq] at marked
          obtain ⟨element, isElement, isCustom⟩ := (Option.any_eq_true _ _).mp marked
          have plain :=
            (lands.plain known).fresh (Nat.le_trans (Nat.le_of_eq sameSize) isNew) isElement
          rw [plain.2] at isCustom
          exact absurd isCustom (by simp)

/-- The second mark is no style either. -/
theorem unswept_inlined (registry : ScriptRegistry) (headFound : state.tree.head? = some head) :
    Tree.Inlined (state.prepared registry html head).tree (unswept registry state html head) 0 := by
  have grows := prepared_grows forest found registry settled headFound
  exact grows.forest.mark_inlined ((forest.site found).html?_of_grows grows)
    (by with_unfolding_all decide) ""

/-- The sweep leaves the stylesheet in the head, unless in the input it belongs to the
boilerplate or lies in it. -/
theorem below_of_unswept (registry : ScriptRegistry) (headFound : state.tree.head? = some head)
    (missing : state.budget.style? = none) {ids : List NodeId}
    (swept : Swept state.tree (unswept registry state html head)
      (run registry state html).tree html head ids) {style : NodeId}
    (present : (unswept registry state html head).customStyle? = some style)
    (free : state.tree.customStyle? = some style →
      ¬ ∃ node, state.tree.OnWay style head node ∧ state.tree.IsBoilerplate node) :
    (run registry state html).tree.Below style head := by
  obtain ⟨other, otherFound, below, -⟩ :=
    swept.grows.forest.isCustomStyle_of_customStyle? present
  rw [(forest.site found).head?_of_grows swept.grows, headFound] at otherFound
  cases otherFound
  rw [(unswept_inlined forest found settled registry headFound).customStyle?] at present
  rcases prepared_customStyle? forest found settled registry headFound missing present
    with old | ⟨isNew, link⟩
  · have inside := (forest.isCustomStyle_of_customStyle? old).lt_size
    exact (swept.below_iff forest below (.inl inside)).mpr (free old)
  · rw [← (unswept_sameLinks registry state html head).parent?] at link
    refine (swept.below_iff forest below (.inr link)).mpr ?_
    -- In the input there is no way up from a node that is new.
    have alone : ∀ {upper}, ¬ state.tree.Below style upper :=
      Tree.not_below_of_parentless (Tree.parent?_of_size_le isNew)
    rintro ⟨node, ⟨rfl | lower, upper⟩, -⟩
    · exact alone upper
    · exact alone lower

/-- **A run and the author styles.** Unless the sweep takes the stylesheet away, the stylesheet
and the style attributes of the input keep the limit together, and the style attributes grow
by what layouts can write at most. -/
theorem run_sizes (covers : state.budget.Covers state.tree limit 0 state.tree)
    (counted : state.tree.uncounted = 0) (registry : ScriptRegistry)
    (missing : state.budget.style? = none)
    (stays : ∀ {head style}, state.tree.head? = some head →
      state.tree.customStyle? = some style →
      (state.prepared registry html head).needsBoilerplate = false →
      ¬ ∃ node, state.tree.OnWay style head node ∧ state.tree.IsBoilerplate node) :
    (run registry state html).tree.stylesheetSize + state.tree.inlineStyleSize ≤ limit ∧
      (run registry state html).tree.inlineStyleSize ≤
        state.tree.inlineStyleSize + state.tree.layoutGrowth := by
  cases headFound : state.tree.head? with
  | none =>
      have visited := visitAll_covers forest found settled covers counted
      rw [Nat.zero_add] at visited
      rw [run_headless forest found settled registry headFound]
      exact ⟨visited.within, visited.atMost⟩
  | some head =>
      have prepared := prepared_covers forest found settled covers counted registry headFound
      rw [Nat.zero_add] at prepared
      cases needs : (state.prepared registry html head).needsBoilerplate with
      | true =>
          rw [run_of_needed forest found headFound settled registry needs]
          exact ⟨prepared.within, prepared.atMost⟩
      | false =>
          have site := forest.site found
          obtain ⟨ids, swept⟩ := run_swept forest found headFound settled registry needs
          have headStays := (site.head?_of_grows swept.grows).trans headFound
          have left : ∀ {style}, (unswept registry state html head).customStyle? = some style →
              (run registry state html).tree.Below style head := fun present =>
            below_of_unswept forest found settled registry headFound missing swept present
              fun old => stays headFound old needs
          obtain ⟨sheet, inline⟩ := swept.pruned.sizes_le swept.grows.forest
            (site.html?_of_grows swept.grows) headStays
            (fun id member => (swept.listed.mp member).1) left
          have covered :=
            prepared.inlined (unswept_inlined forest found settled registry headFound)
          exact ⟨Nat.le_trans (Nat.add_le_add_right sheet _) covered.within,
            Nat.le_trans inline covered.atMost⟩

end Document

end Run

end Rendering

open Rendering

/-- The custom stylesheet of a document goes with the boilerplate when it is rendered ahead:
the sweep takes place, and the stylesheet belongs to the boilerplate or lies in it. -/
def Tree.StylesheetSwept (tree : Tree) (registry : ScriptRegistry) (limit : Nat)
    (report : Report) : Prop :=
  ∃ html head style, tree.html? = some html ∧ tree.hasAttribute html layoutMarker = false ∧
    tree.head? = some head ∧ tree.customStyle? = some style ∧
    ((start limit report tree).prepared registry html head).needsBoilerplate = false ∧
    ∃ node, tree.OnWay style head node ∧ tree.IsBoilerplate node

/-- **The limit on author styles in rendering.** Take a document that keeps the limit, that
has a custom stylesheet or no style attributes in its body, and whose stylesheet does not go
with the boilerplate. When it has been rendered ahead, its stylesheet still keeps the limit
together with the style attributes of the input. The style attributes have grown by what the
layouts of its extension elements write at most. So the limit is passed by no more than
that. -/
theorem renderAhead_styleSizes {tree : Tree} (registry : ScriptRegistry) (limit : Nat)
    (report : Report) (reachable : tree.Reachable) (within : tree.authorStyleSize ≤ limit)
    (counted : tree.customStyle?.isSome = true ∨ tree.inlineStyleSize = 0)
    (stays : ¬ tree.StylesheetSwept registry limit report) :
    let final := (renderAhead registry { limit } report tree).tree
    final.stylesheetSize + tree.inlineStyleSize ≤ limit ∧
      final.inlineStyleSize ≤ tree.inlineStyleSize + tree.layoutGrowth ∧
      final.authorStyleSize ≤ limit + tree.layoutGrowth := by
  intro final
  have sizes : final.stylesheetSize + tree.inlineStyleSize ≤ limit ∧
      final.inlineStyleSize ≤ tree.inlineStyleSize + tree.layoutGrowth := by
    have untouched : final = tree → final.stylesheetSize + tree.inlineStyleSize ≤ limit ∧
        final.inlineStyleSize ≤ tree.inlineStyleSize + tree.layoutGrowth := by
      intro same
      rw [same]
      exact ⟨within, Nat.le_add_right _ _⟩
    cases found : tree.html? with
    | none =>
        refine untouched ?_
        simp only [final, renderAhead, found]
    | some html =>
        cases marked : tree.hasAttribute html layoutMarker with
        | true =>
            refine untouched ?_
            simp only [final, renderAhead, found, marked, if_true]
        | false =>
            have covers : (start limit report tree).budget.Covers tree limit 0 tree :=
              { forest := reachable.forest
                budgetLimit := Nat.le_refl _
                kept := fun found => found
                within := within
                located := fun known => absurd known (by simp [start])
                atLeast := Nat.le_refl _
                atMost := Nat.le_refl _ }
            have result := (renderAhead_eq registry limit report found marked).1
            simp only [final, result]
            have before : (start limit report tree).tree.Forest := reachable.forest
            refine run_sizes before found (start_settled limit report tree) covers
              (Tree.uncounted_eq_zero_iff.mpr counted) registry rfl ?_
            rintro head style headFound present free onWay
            exact stays ⟨html, head, style, found, marked, headFound, present, free, onWay⟩
  refine ⟨sizes.1, sizes.2, ?_⟩
  rw [Tree.authorStyleSize]
  omega

/-- A document with an empty stylesheet and an image of a fixed size that is shown in print
only. -/
def Tree.sizedTree : Tree :=
  Tree.built [.createElement "html" [], .append root 1, .createElement "head" [], .append 1 2,
    .createElement "style" [("amp-custom", "")], .append 2 3,
    .createElement "body" [], .append 1 4,
    .createElement "amp-img" [("id", "a"), ("media", "print"), ("width", "300"),
      ("height", "200")], .append 4 5]

/-- The rule for the image has 35 bytes and its size has 25. The rule keeps the limit, the
size is beyond it. -/
theorem renderAhead_styleSizes_sizedTree :
    let final := (renderAhead .published { limit := 40 } ∅ Tree.sizedTree).tree
    final.stylesheetSize + Tree.sizedTree.inlineStyleSize ≤ 40 ∧
      final.authorStyleSize ≤ 40 + Tree.sizedTree.layoutGrowth ∧
      final.stylesheetSize = 35 ∧ final.inlineStyleSize = 25 ∧
      Tree.sizedTree.layoutGrowth = 25 := by
  intro final
  have reachable : Tree.sizedTree.Reachable := by
    unfold Tree.sizedTree
    exact Tree.reachable_built (by decide +kernel)
  have clean : ∀ id < Tree.sizedTree.size, ¬ Tree.sizedTree.IsBoilerplate id := by decide +kernel
  have stays : ¬ Tree.sizedTree.StylesheetSwept .published 40 ∅ := by
    rintro ⟨_, _, _, -, -, -, -, -, node, -, boilerplate⟩
    exact clean node boilerplate.lt_size boilerplate
  obtain ⟨sheet, -, all⟩ := renderAhead_styleSizes .published 40 ∅ reachable (by decide +kernel)
    (by decide +kernel) stays
  exact ⟨sheet, all, by decide +kernel⟩

/-- Layouts can take the author styles of a document past the limit. -/
theorem renderAhead_past_limit :
    ¬ ∀ (registry : ScriptRegistry) (limit : Nat) (report : Report) (tree : Tree),
      tree.Reachable → tree.authorStyleSize ≤ limit →
        (renderAhead registry { limit } report tree).tree.authorStyleSize ≤ limit := by
  intro claim
  have reachable : Tree.sizedTree.Reachable := by
    unfold Tree.sizedTree
    exact Tree.reachable_built (by decide +kernel)
  exact absurd (claim .published 40 ∅ Tree.sizedTree reachable (by decide +kernel))
    (by decide +kernel)

end FirstPaint
