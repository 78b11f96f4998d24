import FirstPaint.Proofs.Document.Calls
import FirstPaint.Proofs.Pass.Grouping
import FirstPaint.Proofs.Pass.Reordering

/-!
# What the head holds afterwards

Ordering the head releases its children and appends those in the canonical order, none of
which is refused. Hence the head ends up with exactly the canonical order as its children,
and a former child that is not in the order has no parent (`Tree.HeadOrdered`).

Together with the description of the canonical order this says which children the head
loses (`head_children_kept`): blank text, and nodes that are displaced by one that came
after them.
-/

set_option autoImplicit false

namespace FirstPaint

namespace Tree

/-- A tree in which the head has a given list of its former children, and no other
former child has a parent. -/
structure HeadOrdered (before after : Tree) (head : NodeId) (order : List NodeId) : Prop
    extends HeadOnly before after head where
  children_head : after.children head = order
  parent?_former : ∀ {id}, id ∈ before.children head →
    after.parent? id = if id ∈ order then some head else none

end Tree

/-- The head gets the canonical order of its children. -/
theorem orderHead_headOrdered (registry : ScriptRegistry) {tree : Tree} {head : NodeId}
    (forest : tree.Forest) (headFound : tree.head? = some head) :
    tree.HeadOrdered (orderHead registry tree) head (headOrder registry tree head) := by
  have spec := forest.released_head headFound
  have gathered := orderHead_gathered registry forest headFound
  refine ⟨orderHead_headOnly registry forest headFound, ?_, fun {id} former => ?_⟩
  · rw [gathered.children, spec.children, if_pos rfl, if_pos rfl, List.nil_append]
  · rw [gathered.parent?, spec.parent?, if_pos former]

/-! ## What the head loses -/

/-- A child of the head that does not stay there: a text that is blank, or a node whose
place in its group is taken by one that comes after it. -/
def Dropped (tree : Tree) (placed : List Placed) (child : NodeId) : Prop :=
  tree.IsBlankText child ∨
    ∃ group later, [⟨group, child⟩, ⟨group, later⟩].Sublist placed ∧
      group.Displaces tree child later

theorem not_mem_canonicalOrder_iff {registry : ScriptRegistry} {tree : Tree}
    {nodes : List NodeId} {id : NodeId} (distinct : nodes.Nodup) (member : id ∈ nodes) :
    id ∉ canonicalOrder registry tree nodes ↔
      Dropped tree (placements registry tree false nodes) id := by
  rw [mem_canonicalOrder_iff distinct]
  constructor
  · intro stays
    by_cases blank : tree.IsBlankText id
    · exact .inl blank
    · obtain ⟨group, fell⟩ := exists_mem_placements_iff.mpr ⟨member, blank⟩
      by_contra free
      refine stays ⟨group, fell, fun later sublist displaces => free (.inr ?_)⟩
      exact ⟨group, later, sublist, displaces⟩
  · rintro (blank | ⟨group, later, sublist, displaces⟩) ⟨other, fell, free⟩
    · exact (exists_mem_placements_iff.mp ⟨other, fell⟩).2 blank
    · obtain rfl : other = group :=
        group_eq_of_mem_placements distinct fell (sublist.subset List.mem_cons_self)
      exact free later sublist displaces

theorem nameOfExtension_congr {before after : Tree} {script : NodeId}
    (same : after.kind? script = before.kind? script) :
    nameOfExtension after script = nameOfExtension before script := by
  simp only [nameOfExtension, Tree.attribute?, Tree.element?_congr same]

/-- What is dropped depends on the contents of the nodes alone. -/
theorem dropped_congr {before after : Tree} (same : before.SameContent after)
    (placed : List Placed) (child : NodeId) :
    Dropped after placed child ↔ Dropped before placed child := by
  have texts : after.text? child = before.text? child := by
    simp only [Tree.text?, same.kind?]
  have names : ∀ id, nameOfExtension after id = nameOfExtension before id :=
    fun id => nameOfExtension_congr (same.kind? id)
  simp only [Dropped, Tree.IsBlankText, HeadGroup.Displaces, texts, names]

/-- **Ordering the head loses nothing that it should keep.** A document without a head
stays as it is. Otherwise no node is created or changed, and links change only between
the head and its former children: each of them is either a child of the head exactly
once or has no parent, and nothing else is a child of the head. The ones without a
parent are blank texts, nodes of a group for one node behind which another one fell
into that group, and extension scripts behind which a script for the same extension
fell into the same group. -/
theorem head_children_kept {tree : Tree} (reachable : tree.Reachable)
    (registry : ScriptRegistry) :
    let final := orderHead registry tree
    (tree.head? = none → final = tree) ∧
    ∀ head, tree.head? = some head →
      let placed := placements registry (tree.releaseChildren head) false (tree.children head)
      tree.SameContent final ∧
      (∀ id, id ≠ head → final.children id = tree.children id) ∧
      (∀ id, id ∉ tree.children head → final.parent? id = tree.parent? id) ∧
      (∀ child ∈ final.children head, child ∈ tree.children head) ∧
      ∀ child ∈ tree.children head,
        (Dropped tree placed child → final.parent? child = none ∧
          (final.children head).count child = 0) ∧
        (¬ Dropped tree placed child → final.parent? child = some head ∧
          (final.children head).count child = 1) := by
  intro final
  have forest := reachable.forest
  refine ⟨fun headless => ?_, fun head headFound => ?_⟩
  · simp only [final, orderHead, headless]
  · intro placed
    have ordered := orderHead_headOrdered registry forest headFound
    have same := (forest.released_head headFound).toSameContent
    refine ⟨ordered.toSameContent, fun id => ordered.children, fun id => ordered.parent?,
      fun child => ordered.subset forest, fun child former => ?_⟩
    have lost : child ∉ headOrder registry tree head ↔ Dropped tree placed child :=
      (not_mem_canonicalOrder_iff (forest.nodup_children head) former).trans
        (dropped_congr same placed child)
    rw [ordered.parent?_former former, ordered.children_head]
    constructor
    · intro dropped
      have absent := lost.mpr dropped
      exact ⟨if_neg absent, List.count_eq_zero_of_not_mem absent⟩
    · intro kept
      have present : child ∈ headOrder registry tree head :=
        Classical.not_not.mp (mt lost.mp kept)
      have once : (headOrder registry tree head).Nodup :=
        nodup_canonicalOrder (forest.nodup_children head)
      exact ⟨if_pos present, List.nodup_iff_count_eq_one.mp once child present⟩

/-- A document whose head has a blank text, two titles, two declarations of the
character set, three scripts for two extensions, two links to the style of the runtime, and
two custom stylesheets. -/
def Tree.crowdedTree : Tree :=
  Tree.built [.createElement "html" [], .append root 1, .createElement "head" [], .append 1 2,
    .create (.text " \n"), .append 2 3, .createElement "title" [], .append 2 4,
    .createElement "meta" [("charset", "latin1")], .append 2 5,
    .createElement "script" [("custom-element", "amp-b")], .append 2 6,
    .createElement "meta" [("charset", "utf-8")], .append 2 7,
    .createElement "script" [("custom-element", "amp-a")], .append 2 8,
    .createElement "script" [("custom-template", "amp-b")], .append 2 9,
    .createElement "title" [], .append 2 10,
    .createElement "link" [("rel", "stylesheet"), ("href", "/v0.css")], .append 2 11,
    .createElement "style" [("amp-custom", "")], .append 2 12,
    .createElement "link" [("rel", "stylesheet"), ("href", "/v0.css")], .append 2 13,
    .createElement "style" [("amp-custom", "")], .append 2 14]

/-- What stays, and what has given its place to a node behind it. -/
theorem head_children_kept_crowdedTree :
    let final := orderHead .published Tree.crowdedTree
    final.children 2 = [7, 13, 8, 9, 14, 4, 10] ∧
      (∀ child ∈ [3, 5, 6, 11, 12], final.parent? child = none) ∧
      Tree.crowdedTree.SameContent final := by
  intro final
  have reachable : Tree.crowdedTree.Reachable := by
    unfold Tree.crowdedTree
    exact Tree.reachable_built (by decide +kernel)
  have headFound : Tree.crowdedTree.head? = some 2 := by decide +kernel
  obtain ⟨same, -, -, -, kept⟩ := (head_children_kept reachable .published).2 2 headFound
  have ordered : final.children 2 = [7, 13, 8, 9, 14, 4, 10] := by decide +kernel
  refine ⟨ordered, fun child member => ?_, same⟩
  obtain ⟨former, displaced⟩ : child ∈ Tree.crowdedTree.children 2 ∧
      child ∉ [7, 13, 8, 9, 14, 4, 10] := by
    revert child member
    decide +kernel
  obtain ⟨dropped, stays⟩ := kept child former
  refine (dropped (Classical.byContradiction fun free => ?_)).1
  have once := (stays free).2
  rw [ordered, List.count_eq_zero_of_not_mem displaced] at once
  exact absurd once (by decide)

end FirstPaint
