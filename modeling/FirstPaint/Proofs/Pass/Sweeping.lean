import FirstPaint.Proofs.Pass.Visiting

/-!
# The sweep

When nothing needs the boilerplate, the html element is marked again and all
boilerplate below the head is detached, one node after another. The nodes are found
before the first of them goes, so it makes no difference how they are nested: in the
end a node has lost its parent exactly if it is on the list (`Tree.Pruned`).

What was added during rendering is no boilerplate, and no attribute of boilerplate
was written. So the list holds what the input has below its head
(`Rendering.Swept`), and the sweep leaves the html element and the head alone.
-/

set_option autoImplicit false

namespace FirstPaint

namespace Tree

/-- A tree in which some nodes have been taken away from their parents. -/
structure Pruned (before after : Tree) (ids : List NodeId) : Prop
    extends SameContent before after where
  forest : after.Forest
  parent? : ∀ id, after.parent? id = if id ∈ ids then none else before.parent? id
  children : ∀ id, after.children id = (before.children id).filter (· ∉ ids)

theorem Forest.pruned {tree : Tree} (forest : tree.Forest) (ids : List NodeId) :
    Pruned tree (ids.foldl (·.detach ·) tree) ids := by
  induction ids generalizing tree with
  | nil =>
      refine ⟨.refl tree, forest, fun id => by simp, fun id => ?_⟩
      exact (List.filter_eq_self.mpr fun child _ => by simp).symm
  | cons first rest ih =>
      have detached := forest.detached first
      have others := ih (detached.forest forest)
      refine ⟨detached.toSameContent.trans others.toSameContent, others.forest, ?_, ?_⟩
      · intro id
        rw [List.foldl_cons, others.parent?, detached.parent?]
        by_cases later : id ∈ rest
        · simp [later]
        · simp [later]
      · intro id
        rw [List.foldl_cons, others.children, detached.children, List.filter_filter]
        refine List.filter_congr fun child _ => ?_
        by_cases same : child = first <;> simp [same]

/-- A node lies on the way from another one up to an ancestor, the start included. -/
def OnWay (tree : Tree) (id ancestor node : NodeId) : Prop :=
  (node = id ∨ tree.Below id node) ∧ tree.Below node ancestor

/-- A way begins at its start and goes on as the way of the parent. -/
theorem onWay_iff_of_parent? {tree : Tree} {id parent ancestor node : NodeId}
    (link : tree.parent? id = some parent) :
    tree.OnWay id ancestor node ↔
      node = id ∧ tree.Below id ancestor ∨ tree.OnWay parent ancestor node := by
  constructor
  · rintro ⟨rfl | lower, upper⟩
    · exact .inl ⟨rfl, upper⟩
    · exact .inr ⟨((below_iff_of_parent? link).mp lower).imp_left Eq.symm, upper⟩
  · rintro (⟨rfl, below⟩ | ⟨lower, upper⟩)
    · exact ⟨.inl rfl, below⟩
    · exact ⟨.inr ((below_iff_of_parent? link).mpr (lower.imp_left Eq.symm)), upper⟩

theorem Forest.not_onWay_self {tree : Tree} (forest : tree.Forest) {id node : NodeId} :
    ¬ tree.OnWay id id node := by
  rintro ⟨rfl | lower, upper⟩
  · exact forest.not_below_self upper
  · exact forest.not_below_self (lower.trans upper)

namespace Pruned

variable {before after : Tree} {ids : List NodeId} (pruned : Pruned before after ids)
include pruned

/-- A node is still below an ancestor unless the way up is cut somewhere. -/
theorem below_iff (forest : before.Forest) {id ancestor : NodeId} :
    after.Below id ancestor ↔
      before.Below id ancestor ∧ ∀ node, before.OnWay id ancestor node → node ∉ ids := by
  induction forest.rooted id with
  | @top id parentless =>
      have still : after.parent? id = none := by rw [pruned.parent?, parentless, ite_self]
      have notAfter : ¬ after.Below id ancestor := not_below_of_parentless still
      have notBefore : ¬ before.Below id ancestor := not_below_of_parentless parentless
      exact ⟨fun below => absurd below notAfter, fun below => absurd below.1 notBefore⟩
  | @under id parent link _ ih =>
      by_cases cut : id ∈ ids
      · have orphan : after.parent? id = none := by rw [pruned.parent?, if_pos cut]
        refine iff_of_false (not_below_of_parentless orphan) ?_
        rintro ⟨below, free⟩
        exact free id ⟨.inl rfl, below⟩ cut
      · have stays : after.parent? id = some parent := by rw [pruned.parent?, if_neg cut, link]
        rw [below_iff_of_parent? stays, ih]
        constructor
        · rintro (rfl | ⟨above, free⟩)
          · refine ⟨below_of_parent? link, fun node way => ?_⟩
            rcases (onWay_iff_of_parent? link).mp way with ⟨rfl, -⟩ | higher
            · exact cut
            · exact absurd higher forest.not_onWay_self
          · refine ⟨(below_iff_of_parent? link).mpr (.inr above), fun node way => ?_⟩
            rcases (onWay_iff_of_parent? link).mp way with ⟨rfl, -⟩ | higher
            · exact cut
            · exact free node higher
        · rintro ⟨below, free⟩
          refine ((below_iff_of_parent? link).mp below).imp_right fun above => ⟨above, ?_⟩
          intro node higher
          exact free node ((onWay_iff_of_parent? link).mpr (.inr higher))

/-- Nothing that was not there before is below anything. -/
theorem below_of_below {id ancestor : NodeId} (below : after.Below id ancestor) :
    before.Below id ancestor := by
  refine below.mono ?_
  intro child parent link
  rw [pruned.parent?] at link
  split at link
  next => exact absurd link (by simp)
  next => exact link

/-- Nothing changes where no child is on the list. -/
theorem children_eq {id : NodeId} (apart : ∀ child ∈ before.children id, child ∉ ids) :
    after.children id = before.children id := by
  rw [pruned.children]
  exact List.filter_eq_self.mpr fun child member => decide_eq_true (apart child member)

section Document

variable {html head : NodeId} (forest : before.Forest) (found : before.html? = some html)
  (headFound : before.head? = some head) (inHead : ∀ id ∈ ids, before.Below id head)
include forest found headFound inHead

omit found headFound pruned in
/-- What goes lies below the head, so no child of a node above the head goes. -/
theorem not_mem_of_above {upper child : NodeId} (above : before.Below head upper)
    (member : child ∈ before.children upper) : child ∉ ids := by
  intro inList
  have link := forest.mem_children_iff.mp member
  rcases (below_iff_of_parent? link).mp (inHead child inList) with rfl | below
  · exact forest.not_below_self above
  · exact forest.not_below_self (below.trans above)

theorem html? : after.html? = some html := by
  have above : before.Below head root :=
    (below_of_parent? (forest.parent?_of_head? found headFound)).trans
      (below_of_parent? (forest.parent?_of_html? found))
  rw [← found]
  refine html?_congr (pruned.children_eq ?_) fun child _ => tag?_congr (pruned.kind? child)
  exact fun child member => not_mem_of_above forest inHead above member

theorem head? : after.head? = some head := by
  have above := below_of_parent? (forest.parent?_of_head? found headFound)
  rw [← headFound]
  refine htmlChild?_congr found (pruned.html? forest found headFound inHead)
    (pruned.children_eq ?_) (fun child _ => tag?_congr (pruned.kind? child)) "head"
  exact fun child member => not_mem_of_above forest inHead above member

end Document

end Pruned

end Tree

/-- The node is a noscript element, or a style element with a marker of boilerplate. -/
def Tree.IsBoilerplate (tree : Tree) (id : NodeId) : Prop :=
  ∃ element, tree.element? id = some element ∧
    (element.tag = "noscript" ∨ element.tag = "style" ∧
      (element.attributes.contains "amp-boilerplate" = true ∨
        element.attributes.contains "amp4ads-boilerplate" = true ∨
        element.attributes.contains "amp4email-boilerplate" = true))

section Boilerplate

variable {tree : Tree} {id : NodeId}

/-- These are the nodes that the sweep looks for. -/
theorem Tree.isBoilerplate_iff :
    tree.IsBoilerplate id ↔ (tree.element? id).any Element.belongsToBoilerplate = true := by
  simp [IsBoilerplate, Option.any_eq_true, Element.belongsToBoilerplate, boilerplateMarkers]

instance : Decidable (tree.IsBoilerplate id) := decidable_of_iff _ Tree.isBoilerplate_iff.symm

theorem Tree.IsBoilerplate.isSome_tag? (boilerplate : tree.IsBoilerplate id) :
    (tree.tag? id).isSome = true := by
  obtain ⟨element, known, -⟩ := boilerplate
  exact Tree.isSome_tag?_of_element? known

theorem Tree.IsBoilerplate.lt_size (boilerplate : tree.IsBoilerplate id) : id < tree.size := by
  obtain ⟨element, known, -⟩ := boilerplate
  exact Tree.lt_size_of_element? known

theorem Tree.isBoilerplate_congr {after : Tree} (same : after.element? id = tree.element? id) :
    after.IsBoilerplate id ↔ tree.IsBoilerplate id := by
  rw [IsBoilerplate, IsBoilerplate, same]

end Boilerplate

namespace Rendering

/-- The tree from which the boilerplate is swept. -/
def unswept (registry : ScriptRegistry) (state : Rendering) (html head : NodeId) : Tree :=
  (state.prepared registry html head).tree.setAttribute html noBoilerplateMarker ""

theorem unswept_sameLinks (registry : ScriptRegistry) (state : Rendering) (html head : NodeId) :
    Tree.SameLinks (state.prepared registry html head).tree
      (unswept registry state html head) := by
  unfold unswept
  exact Tree.SameLinks.setAttribute _ html noBoilerplateMarker ""

/-- The boilerplate below the head of the input has been swept from a tree that has
grown out of the input. -/
structure Swept (start middle after : Tree) (html head : NodeId) (ids : List NodeId) : Prop where
  grows : start.Grows (start.runScope html) Element.NoBoilerplate middle
  pruned : Tree.Pruned middle after ids
  listed : ∀ {id}, id ∈ ids ↔ middle.Below id head ∧ middle.IsBoilerplate id
  mem_iff : ∀ {id}, id ∈ ids ↔ start.Below id head ∧ start.IsBoilerplate id

section Run

variable {state : Rendering} {html head : NodeId} (forest : state.tree.Forest)
  (found : state.tree.html? = some html) (headFound : state.tree.head? = some head)
  (settled : state.budget.Settled state.tree) (registry : ScriptRegistry)
include forest found headFound settled

theorem run_eq : run registry state html =
    (state.prepared registry html head).dropBoilerplate html head := by
  have same := (head?_visitAll forest found settled).trans headFound
  unfold run
  simp only [marked] at same
  simp only [same]
  rfl

/-- A document that needs its boilerplate keeps all of it. -/
theorem run_of_needed (needs : (state.prepared registry html head).needsBoilerplate = true) :
    run registry state html = state.prepared registry html head := by
  rw [run_eq forest found headFound settled registry, dropBoilerplate, if_pos needs]

omit forest found headFound settled in
theorem budget_dropBoilerplate : (state.dropBoilerplate html head).budget = state.budget := by
  unfold dropBoilerplate
  split <;> rfl

omit forest found headFound settled in
theorem dropBoilerplate_of_free (free : state.needsBoilerplate = false) :
    (state.dropBoilerplate html head).tree =
      ((state.tree.setAttribute html noBoilerplateMarker "").elementsBelow head
        fun _ element => element.belongsToBoilerplate).foldl (·.detach ·)
        (state.tree.setAttribute html noBoilerplateMarker "") := by
  rw [dropBoilerplate, if_neg (by simp [free])]

/-- A document that does not need its boilerplate loses all of it. -/
theorem run_swept (free : (state.prepared registry html head).needsBoilerplate = false) :
    ∃ ids, Swept state.tree (unswept registry state html head) (run registry state html).tree
      html head ids := by
  have site := forest.site found
  have grows : state.tree.Grows (state.tree.runScope html) Element.NoBoilerplate
      (unswept registry state html head) :=
    (prepared_grows forest found registry settled headFound).setAttribute noBoilerplateMarker ""
      (site.writtenInside html (.inl rfl)) (.inl rfl)
  have listed : ∀ {id}, id ∈ ((unswept registry state html head).elementsBelow head
      fun _ element => element.belongsToBoilerplate) ↔
      (unswept registry state html head).Below id head ∧
        (unswept registry state html head).IsBoilerplate id := by
    intro id
    rw [Tree.elementsBelow, List.mem_filter, grows.forest.mem_descendants_iff,
      Tree.isBoilerplate_iff]
  refine ⟨_, grows, ?_, listed, ?_⟩
  · rw [run_eq forest found headFound settled registry, dropBoilerplate_of_free free]
    exact grows.forest.pruned _
  · intro id
    rw [listed]
    by_cases inside : id < state.tree.size
    · rw [grows.below_iff forest inside, Tree.isBoilerplate_iff, Tree.isBoilerplate_iff,
        site.belongsToBoilerplate_of_grows grows inside]
    · have outside := Nat.le_of_not_lt inside
      constructor
      · rintro ⟨-, boilerplate⟩
        obtain ⟨element, known, belongs⟩ :=
          (Option.any_eq_true _ _).mp (Tree.isBoilerplate_iff.mp boilerplate)
        rw [grows.fresh outside known] at belongs
        exact absurd belongs (by simp)
      · rintro ⟨-, boilerplate⟩
        exact absurd boilerplate.lt_size inside

/-- Rendering a document with a head leaves a forest in which html element and head
are the ones that were there. -/
theorem run_stays : (run registry state html).tree.Forest ∧
    (run registry state html).tree.html? = some html ∧
    (run registry state html).tree.head? = some head := by
  have site := forest.site found
  cases needs : (state.prepared registry html head).needsBoilerplate with
  | true =>
      rw [run_of_needed forest found headFound settled registry needs]
      have grows := prepared_grows forest found registry settled headFound
      exact ⟨grows.forest, site.html?_of_grows grows,
        (site.head?_of_grows grows).trans headFound⟩
  | false =>
      obtain ⟨ids, swept⟩ := run_swept forest found headFound settled registry needs
      have htmlStays := site.html?_of_grows swept.grows
      have headStays := (site.head?_of_grows swept.grows).trans headFound
      have inHead : ∀ id ∈ ids, (unswept registry state html head).Below id head :=
        fun id member => swept.grows.below_of_below (swept.mem_iff.mp member).1
      exact ⟨swept.pruned.forest,
        swept.pruned.html? swept.grows.forest htmlStays headStays inHead,
        swept.pruned.head? swept.grows.forest htmlStays headStays inHead⟩

/-- The attributes that the html element has in the end. -/
theorem hasAttribute_run (name : String) :
    (run registry state html).tree.hasAttribute html name =
      (Ascii.lower layoutMarker == Ascii.lower name || state.tree.hasAttribute html name ||
        (!(state.prepared registry html head).needsBoilerplate &&
          Ascii.lower noBoilerplateMarker == Ascii.lower name)) := by
  have first := hasAttribute_of_grows forest found
    (prepared_lands forest found registry settled headFound).grows name
  cases needs : (state.prepared registry html head).needsBoilerplate with
  | true =>
      rw [run_of_needed forest found headFound settled registry needs, first]
      simp
  | false =>
      obtain ⟨ids, swept⟩ := run_swept forest found headFound settled registry needs
      have htmlStays := (forest.site found).html?_of_grows
        (prepared_grows forest found registry settled headFound)
      have isElement := Tree.isSome_element?_of_isTagged (Tree.html?_eq_some_iff.mp htmlStays).2
      rw [Tree.hasAttribute_congr (swept.pruned.kind? html), unswept,
        Tree.hasAttribute_setAttribute isElement, first, Bool.or_comm]
      simp

omit headFound in
/-- Without a head nothing is swept. -/
theorem run_headless (headless : state.tree.head? = none) :
    run registry state html = (state.marked html).visitAll := by
  have none := (head?_visitAll forest found settled).trans headless
  unfold run
  simp only [marked] at none
  simp only [none]
  rfl

end Run

/-- A pass that starts on a document with a budget of its own. -/
def start (limit : Nat) (report : Report) (tree : Tree) : Rendering :=
  { tree, budget := { limit }, report }

theorem start_settled (limit : Nat) (report : Report) (tree : Tree) :
    (start limit report tree).budget.Settled (start limit report tree).tree :=
  .of_missing rfl

end Rendering

open Rendering in
theorem renderAhead_eq {tree : Tree} {html : NodeId} (registry : ScriptRegistry) (limit : Nat)
    (report : Report) (found : tree.html? = some html)
    (unmarked : tree.hasAttribute html layoutMarker = false) :
    (renderAhead registry { limit } report tree).tree =
      (run registry (start limit report tree) html).tree ∧
    (renderAhead registry { limit } report tree).report =
      (run registry (start limit report tree) html).report := by
  simp only [renderAhead, found, unmarked]
  exact ⟨rfl, rfl⟩

open Rendering in
theorem renderAhead_budget {tree : Tree} {html : NodeId} (registry : ScriptRegistry) (limit : Nat)
    (report : Report) (found : tree.html? = some html)
    (unmarked : tree.hasAttribute html layoutMarker = false) :
    (renderAhead registry { limit } report tree).budget =
      (run registry (start limit report tree) html).budget := by
  simp only [renderAhead, found, unmarked]
  rfl

end FirstPaint
