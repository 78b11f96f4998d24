import FirstPaint.Proofs.Document.Insertion

/-!
# Moving all children of a node

All children of a node are taken away first, and then they are appended to another node one
after another, each only if it may be placed there. Meanwhile the tree changes with every step,
but not the way upwards from the target: what is moved does not lie on it, for otherwise the
move would be refused (`Gathered.below_iff`). So the children that may be placed in the end are
the same as at the start, and they come behind the children of the target in their order
(`Forest.foldlM_append?_gathered`).

At most one child is refused, the one that is the target or has the target below it. There is
one exactly if the target lies below the node whose children are moved. It has been taken away
already, so it is left without a parent, and all that is below it leaves the document with it
(`moveChildren?_keeps_parents_iff`).
-/

set_option autoImplicit false

namespace FirstPaint

namespace Tree

/-! ## Ways upwards that stay -/

section Ways

variable {tree after : Tree} {id ancestor : NodeId}

/-- A way upwards stays if the links on it do. -/
theorem Below.of_kept (below : tree.Below id ancestor)
    (kept : ∀ {lower upper}, tree.Within id lower → tree.parent? lower = some upper →
      tree.Within upper ancestor → after.parent? lower = some upper) :
    after.Below id ancestor := by
  induction below using Relation.TransGen.head_induction_on with
  | single link => exact below_of_parent? (kept (.inl rfl) link (.inl rfl))
  | head link above ih =>
      have step := kept (.inl rfl) link (.inr above)
      refine (below_iff_of_parent? step).mpr (.inr (ih fun within => ?_))
      exact kept (.inr ((below_iff_of_parent? link).mpr within))

end Ways

/-! ## Appending one after another -/

/-- A tree in which nodes without a parent have become the last children of a target. -/
structure Gathered (before after : Tree) (target : NodeId) (moved : List NodeId) : Prop
    extends SameContent before after where
  forest : after.Forest
  parent? : ∀ id, after.parent? id = if id ∈ moved then some target else before.parent? id
  children : ∀ holder, after.children holder =
    before.children holder ++ if holder = target then moved else []

section Gather

variable {tree middle after : Tree} {target : NodeId}

theorem Gathered.refl (forest : tree.Forest) (target : NodeId) : Gathered tree tree target [] where
  toSameContent := .refl tree
  forest := forest
  parent? := by simp
  children := by simp

theorem Gathered.trans {first second : List NodeId} (earlier : Gathered tree middle target first)
    (later : Gathered middle after target second) :
    Gathered tree after target (first ++ second) where
  toSameContent := earlier.toSameContent.trans later.toSameContent
  forest := later.forest
  parent? id := by
    rw [later.parent?, earlier.parent?]
    by_cases isSecond : id ∈ second <;> simp [isSecond]
  children holder := by
    rw [later.children, earlier.children]
    split <;> simp

/-- What lies above the target is the same before and after, since no node is moved below
itself. -/
theorem Gathered.below_iff {moved : List NodeId} (gathered : Gathered tree after target moved)
    (apart : ∀ node ∈ moved, ¬ tree.Within target node) {ancestor : NodeId} :
    after.Below target ancestor ↔ tree.Below target ancestor := by
  have unmoved : ∀ {id}, id ∉ moved → after.parent? id = tree.parent? id :=
    fun notMoved => by rw [gathered.parent?, if_neg notMoved]
  constructor
  · intro below
    refine below.of_kept fun {lower _} within link _ => ?_
    rwa [unmoved fun isMoved => ?_] at link
    -- A moved node on the way upwards would lie below itself afterwards.
    have under : after.parent? lower = some target := by rw [gathered.parent?, if_pos isMoved]
    exact gathered.forest.not_below_self ((below_iff_of_parent? under).mpr within)
  · intro below
    refine below.of_kept fun {lower _} within link _ => ?_
    rwa [unmoved fun isMoved => apart lower isMoved within]

/-- Appending one node without a parent to a target that it may be placed below. -/
theorem Forest.append?_gathered (forest : tree.Forest) {node : NodeId}
    (targetInside : target < tree.size) (inside : node < tree.size)
    (loose : tree.parent? node = none) (may : tree.mayPlace target node = true) :
    ∃ after, tree.append? target node = some after ∧ Gathered tree after target [node] := by
  obtain ⟨after, done, placed⟩ := forest.place?_spec targetInside inside may (· ++ [node])
  have absent : ∀ holder, (tree.children holder).filter (· != node) = tree.children holder :=
    fun holder => forest.filter_children (by simp [loose])
  refine ⟨after, done, placed.toSameContent,
    placed.forest forest may (perm_append_child node), fun id => ?_, fun holder => ?_⟩
  · simp only [placed.parent?, List.mem_singleton]
  · rw [placed.children, absent, absent]
    split
    next same => rw [same]
    next => rw [List.append_nil]

/-- Of nodes without a parent that are appended one after another, those come to the target
that may be placed there at the start. -/
theorem Forest.foldlM_append?_gathered (nodes : List NodeId) (forest : tree.Forest)
    (targetInside : target < tree.size) (inside : ∀ node ∈ nodes, node < tree.size)
    (loose : ∀ node ∈ nodes, tree.parent? node = none) (distinct : nodes.Nodup) :
    ∃ after, nodes.foldlM (fun tree node => tree.append? target node) tree = some after ∧
      Gathered tree after target (nodes.filter (tree.mayPlace target)) := by
  induction nodes generalizing tree with
  | nil => exact ⟨tree, rfl, .refl forest target⟩
  | cons first rest ih =>
      rw [List.forall_mem_cons] at inside loose
      obtain ⟨notLater, others⟩ := List.nodup_cons.mp distinct
      cases may : tree.mayPlace target first with
      | false =>
          have refused : tree.append? target first = some tree := place?_of_refused may
          rw [List.foldlM_cons, refused, List.filter_cons_of_neg (by simp [may])]
          exact ih forest targetInside inside.2 loose.2 others
      | true =>
          obtain ⟨next, done, gathered⟩ :=
            forest.append?_gathered targetInside inside.1 loose.1 may
          have same : ∀ node, next.mayPlace target node = tree.mayPlace target node := by
            intro node
            rw [Bool.eq_iff_iff, gathered.forest.mayPlace_iff, forest.mayPlace_iff,
              gathered.below_iff (by simpa using forest.mayPlace_iff_not_within.mp may)]
          have stillLoose : ∀ node ∈ rest, next.parent? node = none := by
            intro node later
            rw [gathered.parent?, if_neg, loose.2 node later]
            rw [List.mem_singleton]
            rintro rfl
            exact notLater later
          obtain ⟨after, remaining, later⟩ := ih gathered.forest
            (by rwa [gathered.size]) (by simpa only [gathered.size] using inside.2) stillLoose others
          refine ⟨after, ?_, ?_⟩
          · rw [List.foldlM_cons, done]
            exact remaining
          · rw [List.filter_cons_of_pos may]
            rw [funext same] at later
            exact gathered.trans later

/-- If every step has a result, appending without asking for one comes to the same. -/
theorem foldl_append_of_foldlM {nodes : List NodeId}
    (done : nodes.foldlM (fun tree node => tree.append? target node) tree = some after) :
    nodes.foldl (·.append target ·) tree = after := by
  induction nodes generalizing tree with
  | nil => exact Option.some.inj done
  | cons first rest ih =>
      obtain ⟨next, step, remaining⟩ := Option.bind_eq_some_iff.mp done
      change tree.append? target first = some next at step
      rw [List.foldl_cons, append, step]
      exact ih remaining

end Gather

/-! ## Taking all children and appending them -/

/-- A tree in which the children of a source have been taken away, and some of them have
become the last children of a target. -/
structure Transferred (before after : Tree) (source target : NodeId) (moved : List NodeId) : Prop
    extends SameContent before after where
  parent? : ∀ id, after.parent? id = if id ∈ moved then some target
    else if id ∈ before.children source then none else before.parent? id
  children : ∀ holder, after.children holder =
    (if holder = source then [] else before.children holder) ++
      if holder = target then moved else []

section Transfer

variable {tree released after : Tree} {source target child : NodeId}

/-- Moving all children is taking them away and appending them. -/
theorem moveChildren?_eq : tree.moveChildren? source target =
    (tree.takeChildren? source).bind fun taken =>
      taken.1.foldlM (fun tree child => tree.append? target child) taken.2 := by
  rw [moveChildren?, takeChildren?]
  cases tree.releaseChildren? source <;> rfl

/-- What lies above a target counts as above it still when the children of a node have been
taken away, as far as these children themselves are asked for. -/
theorem Released.below_iff (spec : Released tree released source) (forest : tree.Forest)
    (listed : child ∈ tree.children source) :
    released.Below target child ↔ tree.Below target child := by
  have above := forest.mem_children_iff.mp listed
  constructor
  · refine Below.mono fun lower upper link => ?_
    rw [spec.parent?] at link
    split at link
    next => exact absurd link (by simp)
    next => exact link
  · intro below
    refine below.of_kept fun {lower upper} _ link within => ?_
    rwa [spec.parent?, if_neg]
    intro taken
    -- The way would pass the source and end at one of its children.
    obtain rfl : upper = source :=
      Option.some.inj (link.symm.trans (forest.mem_children_iff.mp taken))
    exact forest.not_below_self ((below_iff_of_parent? above).mpr within)

/-- Of children that have been taken away, appending brings those to a target that might have
been placed there before. -/
theorem Released.append_gathered (spec : Released tree released source) (forest : tree.Forest)
    (targetInside : target < tree.size) {nodes : List NodeId}
    (members : ∀ node ∈ nodes, node ∈ tree.children source) (distinct : nodes.Nodup) :
    ∃ after, nodes.foldlM (fun tree node => tree.append? target node) released = some after ∧
      Gathered released after target (nodes.filter (tree.mayPlace target)) := by
  have releasedForest := spec.forest forest
  have may : ∀ node ∈ nodes, released.mayPlace target node = tree.mayPlace target node := by
    intro node member
    rw [Bool.eq_iff_iff, releasedForest.mayPlace_iff, forest.mayPlace_iff,
      spec.below_iff forest (members node member)]
  rw [← List.filter_congr may]
  refine releasedForest.foldlM_append?_gathered nodes (by rwa [spec.size]) ?_ ?_ distinct
  · intro node member
    rw [spec.size]
    exact forest.child_lt (members node member)
  · intro node member
    rw [spec.parent?, if_pos (members node member)]

/-- Moving all children of a node of the store moves those that may be placed. -/
theorem Forest.moveChildren?_transferred (forest : tree.Forest) (sourceInside : source < tree.size)
    (targetInside : target < tree.size) :
    ∃ after, tree.moveChildren? source target = some after ∧
      Transferred tree after source target
        ((tree.children source).filter (tree.mayPlace target)) := by
  obtain ⟨released, taken, spec⟩ := forest.takeChildren?_released sourceInside
  obtain ⟨after, appended, gathered⟩ := spec.append_gathered forest targetInside
    (fun _ listed => listed) (forest.nodup_children source)
  refine ⟨after, ?_, spec.toSameContent.trans gathered.toSameContent, fun id => ?_, fun holder => ?_⟩
  · rw [moveChildren?_eq, taken]
    exact appended
  · rw [gathered.parent?, spec.parent?]
  · rw [gathered.children, spec.children]

/-- What becomes of the children of a source that are to be moved to a target. -/
inductive Handover (before after : Tree) (source target : NodeId) : Prop where
  /-- The target does not lie below the source: all of them are moved. -/
  | all (apart : ¬ before.Below target source)
      (transferred : Transferred before after source target (before.children source))
  /-- The target lies below the source: the child above it is lost, the others are moved. -/
  | allBut {front back : List NodeId} {lost : NodeId} (below : before.Below target source)
      (listed : before.children source = front ++ lost :: back)
      (above : before.Within target lost) (parentless : after.parent? lost = none)
      (transferred : Transferred before after source target (front ++ back))

/-- Children of a source may be placed at any target that does not lie below the source. -/
theorem Forest.mayPlace_of_apart (forest : tree.Forest) (apart : ¬ tree.Below target source)
    (listed : child ∈ tree.children source) : tree.mayPlace target child = true := by
  refine forest.mayPlace_iff_not_within.mpr fun within => apart ?_
  have link := below_of_parent? (forest.mem_children_iff.mp listed)
  rcases within with rfl | above
  · exact link
  · exact above.trans link

/-- Children of one node besides the one above a target may be placed there. -/
theorem Forest.mayPlace_of_sibling (forest : tree.Forest) {other : NodeId}
    (listed : child ∈ tree.children source) (otherListed : other ∈ tree.children source)
    (above : tree.Within target other) (different : child ≠ other) :
    tree.mayPlace target child = true := by
  refine forest.mayPlace_iff_not_within.mpr fun within => different ?_
  exact forest.eq_of_within (forest.mem_children_iff.mp listed)
    (forest.mem_children_iff.mp otherListed) within above

theorem Forest.handover (forest : tree.Forest)
    (transferred : Transferred tree after source target
      ((tree.children source).filter (tree.mayPlace target))) :
    Handover tree after source target := by
  by_cases below : tree.Below target source
  · obtain ⟨lost, above, link⟩ := Relation.TransGen.tail'_iff.mp below
    have within : tree.Within target lost :=
      (Relation.reflTransGen_iff_eq_or_transGen.mp above).imp_left Eq.symm
    have lostListed := forest.mem_children_iff.mpr link
    obtain ⟨front, back, listed⟩ := List.append_of_mem lostListed
    have absent : lost ∉ front ++ back := by
      have distinct := forest.nodup_children source
      rw [listed] at distinct
      exact (List.nodup_cons.mp (List.nodup_middle.mp distinct)).1
    have may : ∀ child ∈ front ++ back, tree.mayPlace target child = true := by
      intro child member
      refine forest.mayPlace_of_sibling ?_ lostListed within fun same => absent (same ▸ member)
      rw [listed]
      exact List.perm_middle.mem_iff.mpr (List.mem_cons_of_mem lost member)
    have refused : ¬ tree.mayPlace target lost = true :=
      fun placed => forest.mayPlace_iff_not_within.mp placed within
    have moved : (tree.children source).filter (tree.mayPlace target) = front ++ back := by
      rw [listed, List.filter_append, List.filter_cons_of_neg refused, ← List.filter_append,
        List.filter_eq_self.mpr may]
    rw [moved] at transferred
    refine .allBut below listed within ?_ transferred
    rw [transferred.parent?, if_neg absent, if_pos lostListed]
  · refine .all below ?_
    rwa [List.filter_eq_self.mpr fun child => forest.mayPlace_of_apart below] at transferred

/-- Every node keeps a parent unless a child is lost. -/
theorem Handover.keeps_parents_iff (handover : Handover tree after source target)
    (forest : tree.Forest) :
    (∀ id, tree.parent? id ≠ none → after.parent? id ≠ none) ↔ ¬ tree.Below target source := by
  cases handover with
  | all apart transferred =>
      refine iff_of_true (fun id attached => ?_) apart
      rw [transferred.parent?]
      split
      next => simp
      next => exact attached
  | @allBut _ _ lost below listed _ parentless =>
      refine iff_of_false (fun kept => kept lost ?_ parentless) (not_not_intro below)
      rw [forest.mem_children_iff.mp (listed ▸ List.mem_append_right _ List.mem_cons_self)]
      simp

/-- **Moving all children keeps every node attached exactly if the target does not lie below
the source.** Then all children come behind those of the target in their order. Otherwise the
child that is the target or has the target below it is left without a parent, and the others
come behind the children of the target. -/
theorem moveChildren?_keeps_parents_iff (reachable : tree.Reachable)
    (sourceInside : source < tree.size) (targetInside : target < tree.size) :
    ∃ after, tree.moveChildren? source target = some after ∧
      Handover tree after source target ∧
      ((∀ id, tree.parent? id ≠ none → after.parent? id ≠ none) ↔
        ¬ tree.Below target source) := by
  have forest := reachable.forest
  obtain ⟨after, done, transferred⟩ :=
    forest.moveChildren?_transferred sourceInside targetInside
  have handover := forest.handover transferred
  exact ⟨after, done, handover, handover.keeps_parents_iff forest⟩

theorem moveChildren?_keeps_parents_iff_listTree :
    (∃ after, listTree.moveChildren? 2 1 = some after ∧ after.children 1 = [2, 3, 4, 5] ∧
      ∀ id, listTree.parent? id ≠ none → after.parent? id ≠ none) ∧
    ∃ after, listTree.moveChildren? 1 5 = some after ∧ after.children 5 = [3, 4] ∧
      ¬ ∀ id, listTree.parent? id ≠ none → after.parent? id ≠ none := by
  have reachable : listTree.Reachable := reachable_built (by decide +kernel)
  have forest := reachable.forest
  have apart : ¬ listTree.Below 1 2 := fun below =>
    absurd (forest.isDescendant_iff.mpr below) (by decide +kernel)
  have below : listTree.Below 5 1 := forest.isDescendant_iff.mp (by decide +kernel)
  have list : 1 < listTree.size := by decide +kernel
  have entry : 2 < listTree.size := by decide +kernel
  have nested : 5 < listTree.size := by decide +kernel
  obtain ⟨whole, wholeDone, handover, kept⟩ :=
    moveChildren?_keeps_parents_iff reachable entry list
  obtain ⟨torn, tornDone, -, lost⟩ := moveChildren?_keeps_parents_iff reachable list nested
  refine ⟨⟨whole, wholeDone, ?_, kept.mpr apart⟩, torn, tornDone, ?_, fun all => lost.mp all below⟩
  · cases handover with
    | all _ transferred =>
        rw [transferred.children]
        decide +kernel
    | allBut under => exact absurd under apart
  · have computed : (listTree.moveChildren? 1 5).map (·.children 5) = some [3, 4] := by
      decide +kernel
    rw [tornDone] at computed
    exact Option.some.inj computed

/-- A node can lose its parent because all children of that parent are moved. -/
theorem moveChildren?_loses_child :
    ¬ ∀ (tree : Tree) (source target : NodeId), tree.Reachable → source < tree.size →
      target < tree.size → ∃ after, tree.moveChildren? source target = some after ∧
        ∀ id, tree.parent? id ≠ none → after.parent? id ≠ none := by
  intro claim
  obtain ⟨after, done, kept⟩ := claim listTree 1 2 (reachable_built (by decide +kernel))
    (by decide +kernel) (by decide +kernel)
  have computed : (listTree.moveChildren? 1 2).map (·.parent? 2) = some none := by
    decide +kernel
  rw [done] at computed
  exact kept 2 (by decide +kernel) (Option.some.inj computed)

end Transfer

end Tree

end FirstPaint
