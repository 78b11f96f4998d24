import FirstPaint.Proofs.Document.Precedence
import FirstPaint.Proofs.Pass.Resweeping

/-!
# The order of the head is canonical

Each child of the head falls into a group in one sweep from left to right. The groups come out
in the order in which they are declared, and within each group the order follows its rule: one
node at most, source order, or ascending names (`Arranged`).

The sweep remembers one thing, whether it has passed a custom stylesheet. So the group of a
child is decided by the child and by the custom stylesheets ahead of it
(`mem_placements_iff`), and of these only links to style sheets take notice. Two heads over
the same nodes in which these links stand on the same sides of the custom stylesheet have the
same nodes in every group. If in addition nothing is displaced and the groups that keep source
order find the same one, every group comes out the same, whatever the order of the source
(`head_order_canonical`).
-/

set_option autoImplicit false

namespace FirstPaint

/-- Parts of a list without repetitions are the same if they have the same members. -/
theorem eq_of_sublists {α : Type} {first second list : List α} (distinct : list.Nodup)
    (inFirst : first.Sublist list) (inSecond : second.Sublist list)
    (members : ∀ member, member ∈ first ↔ member ∈ second) : first = second := by
  refine List.Perm.eq_of_pairwise (fun one other _ _ (ahead : [one, other].Sublist list) behind =>
    absurd behind (not_pair_sublist_swap distinct ahead)) ?_ ?_ ?_
  · exact List.pairwise_iff_forall_sublist.mpr fun pair => pair.trans inFirst
  · exact List.pairwise_iff_forall_sublist.mpr fun pair => pair.trans inSecond
  · exact (List.perm_ext_iff_of_nodup (distinct.sublist inFirst)
      (distinct.sublist inSecond)).mpr members

/-! ## Where a child falls -/

/-- A custom stylesheet stands ahead of the node. -/
def CustomAhead (registry : ScriptRegistry) (tree : Tree) (nodes : List NodeId) (node : NodeId) :
    Prop :=
  ∃ style, [style, node].Sublist nodes ∧ groupOf? registry tree false style = some .styleCustom

section Sweep

variable {registry : ScriptRegistry} {tree : Tree} {passed : Bool} {nodes : List NodeId}
  {group : HeadGroup} {node id : NodeId}

/-- Whether a node is a custom stylesheet is no matter of what is ahead of it. -/
theorem groupOf?_eq_styleCustom_iff (passed : Bool) :
    groupOf? registry tree passed node = some .styleCustom ↔
      groupOf? registry tree false node = some .styleCustom := by
  cases passed with
  | false => rfl
  | true =>
      rcases groupOf?_passed registry tree node with same | ⟨ahead, behind⟩
      · rw [same]
      · rw [ahead, behind]
        decide

theorem customAhead_cons_iff (later : id ∈ nodes) :
    CustomAhead registry tree (node :: nodes) id ↔
      groupOf? registry tree false node = some .styleCustom ∨
        CustomAhead registry tree nodes id := by
  constructor
  · rintro ⟨style, sublist, custom⟩
    cases sublist with
    | cons _ inRest => exact .inr ⟨style, inRest, custom⟩
    | cons_cons => exact .inl custom
  · rintro (custom | ⟨style, sublist, custom⟩)
    · exact ⟨node, (List.singleton_sublist.mpr later).cons_cons node, custom⟩
    · exact ⟨style, sublist.cons node, custom⟩

/-- Nothing stands ahead of the first node. -/
theorem not_customAhead_first (absent : node ∉ nodes) :
    ¬ CustomAhead registry tree (node :: nodes) node := by
  rintro ⟨style, sublist, -⟩
  exact absent (mem_of_pair_sublist_cons sublist)

/-- **Where a child falls** is decided by the child and by the custom stylesheets ahead. -/
theorem mem_placements_iff (distinct : nodes.Nodup) :
    ⟨group, id⟩ ∈ placements registry tree passed nodes ↔
      id ∈ nodes ∧ ∃ behind : Bool,
        (behind = true ↔ passed = true ∨ CustomAhead registry tree nodes id) ∧
        groupOf? registry tree behind id = some group := by
  induction nodes generalizing passed with
  | nil => simp [placements]
  | cons node rest ih =>
      obtain ⟨absent, others⟩ := List.nodup_cons.mp distinct
      by_cases here : id = node
      · subst here
        have first : ¬ CustomAhead registry tree (id :: rest) id := not_customAhead_first absent
        have notLater : ∀ {passed group}, ⟨group, id⟩ ∉ placements registry tree passed rest :=
          fun member => absent
            ((placements_sublist registry tree _ rest).subset (List.mem_map_of_mem member))
        simp only [or_iff_left first, ← Bool.eq_iff_iff, exists_eq_left, List.mem_cons_self,
          true_and]
        unfold placements
        cases found : groupOf? registry tree passed id with
        | none => simpa using notLater
        | some given => simp [notLater, eq_comm]
      · -- What is known behind the first node is what was known, and whether it is custom.
        have behindFirst : ∀ known : Bool,
            (known = true ↔ passed = true ∨
              groupOf? registry tree false node = some .styleCustom) →
            (⟨group, id⟩ ∈ placements registry tree known rest ↔
              id ∈ node :: rest ∧ ∃ behind : Bool,
                (behind = true ↔ passed = true ∨ CustomAhead registry tree (node :: rest) id) ∧
                groupOf? registry tree behind id = some group) := by
          intro known origin
          rw [ih others, List.mem_cons, or_iff_right here]
          refine and_congr_right fun later => exists_congr fun behind => and_congr_left fun _ => ?_
          rw [customAhead_cons_iff later, origin, or_assoc]
        have custom : groupOf? registry tree passed node = some .styleCustom ↔
            groupOf? registry tree false node = some .styleCustom :=
          groupOf?_eq_styleCustom_iff passed
        unfold placements
        cases found : groupOf? registry tree passed node with
        | none =>
            rw [found] at custom
            exact behindFirst passed (by simp [← custom])
        | some given =>
            rw [found] at custom
            rw [List.mem_cons, or_iff_right (by simp [here])]
            exact behindFirst _ (by simp [← custom])

end Sweep

/-! ## Two heads over the same nodes -/

section Alike

variable {registry : ScriptRegistry} {first second : Tree} {nodes others : List NodeId}
  {group : HeadGroup} (distinct : nodes.Nodup) (permuted : others.Perm nodes)
  (groups : ∀ child ∈ nodes, ∀ passed,
    groupOf? registry second passed child = groupOf? registry first passed child)
  (links : ∀ style ∈ nodes, ∀ link ∈ nodes,
    groupOf? registry first false style = some .styleCustom →
    groupOf? registry first false link = some .linkStylesBeforeCustom →
      ([style, link].Sublist others ↔ [style, link].Sublist nodes))
include distinct permuted groups links

/-- A node falls into the same group in both heads. -/
theorem mem_placements_congr (id : NodeId) :
    ⟨group, id⟩ ∈ placements registry second false others ↔
      ⟨group, id⟩ ∈ placements registry first false nodes := by
  rw [mem_placements_iff (permuted.nodup_iff.mpr distinct), mem_placements_iff distinct,
    permuted.mem_iff]
  refine and_congr_right fun member => ?_
  simp only [groups id member]
  rcases groupOf?_passed registry first id with same | ⟨isLink, -⟩
  · -- What is ahead makes no difference to the node.
    have either : ∀ behind,
        groupOf? registry first behind id = groupOf? registry first false id := by
      intro behind
      cases behind with
      | false => rfl
      | true => exact same
    have decided : ∀ condition : Prop, ∃ known : Bool, known = true ↔ condition := by
      intro condition
      classical
      exact ⟨decide condition, decide_eq_true_iff⟩
    simp only [either, exists_and_right, decided]
  · have ahead : CustomAhead registry second others id ↔ CustomAhead registry first nodes id := by
      constructor
      · rintro ⟨style, sublist, custom⟩
        have inNodes := permuted.mem_iff.mp (fst_mem_of_pair_sublist sublist)
        rw [groups style inNodes] at custom
        exact ⟨style, (links style inNodes id member custom isLink).mp sublist, custom⟩
      · rintro ⟨style, sublist, custom⟩
        have inNodes := fst_mem_of_pair_sublist sublist
        refine ⟨style, (links style inNodes id member custom isLink).mpr sublist, ?_⟩
        rw [groups style inNodes, custom]
    rw [ahead]

end Alike

/-! ## Groups without repetitions -/

/-- Nothing that has been placed takes the place of something else. -/
structure Unrepeated (tree : Tree) (placed : List Placed) : Prop where
  single : ∀ group, HeadGroup.isSingle group = true → (nodesIn group placed).length ≤ 1
  byName : ∀ group, HeadGroup.isByName group = true →
    ((nodesIn group placed).map (nameOfExtension tree)).Nodup

/-- Out of scripts with different names all stay. -/
theorem mem_lastByName_of_nodup {nameOf : NodeId → String} {scripts : List NodeId}
    (distinct : (scripts.map nameOf).Nodup) (id : NodeId) :
    id ∈ lastByName nameOf scripts ↔ id ∈ scripts := by
  rw [mem_lastByName_iff distinct.of_map, and_iff_left]
  intro later sublist
  exact List.pairwise_iff_forall_sublist.mp (List.pairwise_map.mp distinct) sublist

section Keeping

variable {first second : Tree} {mine theirs : List NodeId} {group : HeadGroup}

/-- Scripts with different names are listed in the same order, whatever order they come in. -/
theorem lastByName_congr (permuted : theirs.Perm mine)
    (names : ∀ id ∈ mine, nameOfExtension second id = nameOfExtension first id)
    (distinct : (mine.map (nameOfExtension first)).Nodup) :
    lastByName (nameOfExtension second) theirs = lastByName (nameOfExtension first) mine := by
  have same : theirs.map (nameOfExtension second) = theirs.map (nameOfExtension first) :=
    List.map_congr_left fun id member => names id (permuted.mem_iff.mp member)
  have distinctToo : (theirs.map (nameOfExtension second)).Nodup := by
    rw [same, (permuted.map _).nodup_iff]
    exact distinct
  have inMine : ∀ {id}, id ∈ lastByName (nameOfExtension second) theirs → id ∈ mine :=
    fun member => permuted.mem_iff.mp ((mem_lastByName_of_nodup distinctToo _).mp member)
  have ascending := ascending_lastByName (nameOfExtension second) theirs
  refine List.Perm.eq_of_pairwise (fun one other _ _
    (before : nameOfExtension first one < nameOfExtension first other) behind =>
      absurd behind (lt_asymm before)) ?_ (ascending_lastByName _ mine) ?_
  · refine ascending.imp_of_mem fun {one other} oneIn otherIn below => ?_
    rwa [names one (inMine oneIn), names other (inMine otherIn)] at below
  · refine (List.perm_ext_iff_of_nodup ascending.nodup (ascending_lastByName _ mine).nodup).mpr ?_
    intro id
    rw [mem_lastByName_of_nodup distinctToo, mem_lastByName_of_nodup distinct, permuted.mem_iff]

/-- A group keeps the same nodes in the same order. -/
theorem HeadGroup.keep_congr (permuted : theirs.Perm mine)
    (names : ∀ id ∈ mine, nameOfExtension second id = nameOfExtension first id)
    (single : group.isSingle = true → mine.length ≤ 1)
    (byName : group.isByName = true → (mine.map (nameOfExtension first)).Nodup)
    (listed : group.isSingle = false → group.isByName = false → theirs = mine) :
    group.keep second theirs = group.keep first mine := by
  cases isSingle : group.isSingle with
  | true =>
      have same : theirs = mine := by
        rcases mine with _ | ⟨node, _ | ⟨other, rest⟩⟩
        · exact List.perm_nil.mp permuted
        · exact List.perm_singleton.mp permuted
        · exact absurd (single isSingle) (by simp)
      rw [keep_single isSingle, keep_single isSingle, same]
  | false =>
      cases isByName : group.isByName with
      | true =>
          rw [keep_byName isSingle isByName, keep_byName isSingle isByName]
          exact lastByName_congr permuted names (byName isByName)
      | false =>
          rw [keep_all isSingle isByName, keep_all isSingle isByName]
          exact listed isSingle isByName

end Keeping

section Alike

variable {registry : ScriptRegistry} {first second : Tree} {nodes others : List NodeId}

/-- The canonical order of nodes without repetitions is the same for every order of the
nodes that leaves the lists and the sides of the custom stylesheet alone. -/
theorem canonicalOrder_eq_of_permuted (distinct : nodes.Nodup) (permuted : others.Perm nodes)
    (groups : ∀ child ∈ nodes, ∀ passed,
      groupOf? registry second passed child = groupOf? registry first passed child)
    (links : ∀ style ∈ nodes, ∀ link ∈ nodes,
      groupOf? registry first false style = some .styleCustom →
      groupOf? registry first false link = some .linkStylesBeforeCustom →
        ([style, link].Sublist others ↔ [style, link].Sublist nodes))
    (names : ∀ child ∈ nodes, nameOfExtension second child = nameOfExtension first child)
    (unrepeated : Unrepeated first (placements registry first false nodes))
    (lists : ∀ group, HeadGroup.isSingle group = false → HeadGroup.isByName group = false →
      (nodesIn group (placements registry first false nodes)).Sublist others) :
    canonicalOrder registry second others = canonicalOrder registry first nodes := by
  have othersDistinct := permuted.nodup_iff.mpr distinct
  rw [canonicalOrder_eq, canonicalOrder_eq]
  refine List.flatMap_congr fun group _ => ?_
  have members : ∀ id, id ∈ nodesIn group (placements registry second false others) ↔
      id ∈ nodesIn group (placements registry first false nodes) := by
    intro id
    rw [mem_nodesIn_iff, mem_nodesIn_iff]
    exact mem_placements_congr distinct permuted groups links id
  have inNodes : ∀ id ∈ nodesIn group (placements registry first false nodes), id ∈ nodes :=
    fun id member => (placements_sublist registry first false nodes).subset
      (List.mem_map_of_mem (mem_nodesIn_iff.mp member))
  refine HeadGroup.keep_congr ?_ (fun id member => names id (inNodes id member))
    (unrepeated.single group) (unrepeated.byName group) fun several anyName => ?_
  · exact (List.perm_ext_iff_of_nodup (nodup_nodesIn othersDistinct group)
      (nodup_nodesIn distinct group)).mpr members
  · refine eq_of_sublists othersDistinct ?_ (lists group several anyName) members
    exact (List.filter_sublist.map _).trans (placements_sublist registry second false others)

end Alike

/-! ## The rules of the groups -/

/-- Nodes in the order of their groups, each group by its rule. -/
structure Arranged (tree : Tree) (placed arranged : List Placed) : Prop where
  /-- Every node is in the group in which it was placed. -/
  subset : ∀ member ∈ arranged, member ∈ placed
  /-- The groups come in the order of their declaration. -/
  sorted : arranged.Pairwise fun first second => first.group.ctorIdx ≤ second.group.ctorIdx
  single : ∀ group, HeadGroup.isSingle group = true → (nodesIn group arranged).length ≤ 1
  byName : ∀ group, HeadGroup.isByName group = true →
    Ascending (nameOfExtension tree) (nodesIn group arranged)
  listed : ∀ group, HeadGroup.isSingle group = false → HeadGroup.isByName group = false →
    nodesIn group arranged = nodesIn group placed

theorem HeadGroup.isSingle_of_isByName {group : HeadGroup} (byName : group.isByName = true) :
    group.isSingle = false := by
  cases group <;> first | rfl | exact absurd byName (by decide)

/-- The nodes that stay, group by group, are arranged. -/
theorem arranged_listed (registry : ScriptRegistry) (tree : Tree) (nodes : List NodeId) :
    Arranged tree (placements registry tree false nodes)
      (listed HeadGroup.all (staying registry tree nodes)) where
  subset member known := mem_placements_of_staying (mem_listed_iff.mp known).2
  sorted := by
    have ascending : HeadGroup.all.Pairwise fun first second => first.ctorIdx ≤ second.ctorIdx := by
      decide
    refine List.pairwise_flatMap.mpr ⟨fun group _ => ?_, ascending.imp fun {first second} le => ?_⟩
    · rw [List.pairwise_map]
      exact List.pairwise_iff_forall_sublist.mpr fun _ => Nat.le_refl _
    · intro one oneIn other otherIn
      obtain ⟨_, -, rfl⟩ := List.mem_map.mp oneIn
      obtain ⟨_, -, rfl⟩ := List.mem_map.mp otherIn
      exact le
  single group isSingle := by
    rw [nodesIn_listed (by decide), if_pos group.mem_all, staying, HeadGroup.keep_single isSingle]
    exact Option.length_toList_le
  byName group isByName := by
    rw [nodesIn_listed (by decide), if_pos group.mem_all, staying,
      HeadGroup.keep_byName (HeadGroup.isSingle_of_isByName isByName) isByName]
    exact ascending_lastByName _ _
  listed group several anyName := by
    rw [nodesIn_listed (by decide), if_pos group.mem_all, staying,
      HeadGroup.keep_all several anyName]

/-! ## Heads in any order -/

/-- Two heads over the same nodes: the same children with the same contents, of which the
registry says the same. -/
structure SameNodes (registry : ScriptRegistry) (tree other : Tree) (head otherHead : NodeId) :
    Prop where
  permuted : (other.children otherHead).Perm (tree.children head)
  kind? : ∀ child ∈ tree.children head, other.kind? child = tree.kind? child
  told : ∀ child ∈ tree.children head,
    registry.AgreesOn (other.releaseChildren otherHead) (tree.releaseChildren head) child

/-- Of documents that differ in the order of the head alone, every registry says the same. -/
theorem SameNodes.of_reordered {tree other : Tree} {head : NodeId} (registry : ScriptRegistry)
    (forest : tree.Forest) (otherForest : other.Forest) (headFound : tree.head? = some head)
    (otherHeadFound : other.head? = some head) (content : tree.SameContent other)
    (parents : ∀ id, other.parent? id = tree.parent? id)
    (children : ∀ id, id ≠ head → other.children id = tree.children id)
    (permuted : (other.children head).Perm (tree.children head)) :
    SameNodes registry tree other head head := by
  have released := forest.released_head headFound
  have otherReleased := otherForest.released_head otherHeadFound
  have same : other.releaseChildren head = tree.releaseChildren head := by
    refine Tree.eq_of_readings ?_ ⟨fun id => ?_, fun id => ?_⟩
    · exact
        { size := otherReleased.size.trans (content.size.trans released.size.symm)
          kind? := fun id =>
            (otherReleased.kind? id).trans ((content.kind? id).trans (released.kind? id).symm)
          counters :=
            otherReleased.counters.trans (content.counters.trans released.counters.symm) }
    · rw [otherReleased.parent?, released.parent?, parents]
      simp only [permuted.mem_iff]
    · rw [otherReleased.children, released.children]
      by_cases here : id = head
      · rw [if_pos here, if_pos here]
      · rw [if_neg here, if_neg here, children id here]
  refine ⟨permuted, fun child _ => content.kind? child, fun child _ => ?_⟩
  rw [same]
  exact ⟨rfl, rfl, rfl⟩

/-- The groups that are lists of nodes find their nodes in the same order in the other head,
and links to style sheets stand on the same sides of the custom stylesheet. -/
structure SameOrder (registry : ScriptRegistry) (tree other : Tree) (head otherHead : NodeId) :
    Prop where
  lists : ∀ group, HeadGroup.isSingle group = false → HeadGroup.isByName group = false →
    (nodesIn group (placements registry (tree.releaseChildren head) false
      (tree.children head))).Sublist (other.children otherHead)
  links : ∀ style ∈ tree.children head, ∀ link ∈ tree.children head,
    groupOf? registry (tree.releaseChildren head) false style = some .styleCustom →
    groupOf? registry (tree.releaseChildren head) false link = some .linkStylesBeforeCustom →
      ([style, link].Sublist (other.children otherHead) ↔
        [style, link].Sublist (tree.children head))

/-- **The order of the head is canonical.** Each child is given a group in one sweep from left
to right. The children afterwards are in the order of the groups; a group for a single node has
one at most, the names of extension scripts ascend strictly, and every other group has all its
nodes in their order. So the order of the source makes no difference: if nothing takes the place
of something else, any head over the same nodes comes out the same, as long as it has the nodes
of each list in the same order and the custom stylesheet on the same side of each link to a
style sheet. -/
theorem head_order_canonical {tree : Tree} {head : NodeId} (reachable : tree.Reachable)
    (headFound : tree.head? = some head) (registry : ScriptRegistry) :
    let placed := placements registry (tree.releaseChildren head) false (tree.children head)
    (∃ arranged, Arranged tree placed arranged ∧
      (orderHead registry tree).children head = arranged.map (·.node)) ∧
    ∀ {other : Tree} {otherHead : NodeId}, other.Reachable → other.head? = some otherHead →
      Unrepeated tree placed → SameNodes registry tree other head otherHead →
      SameOrder registry tree other head otherHead →
        (orderHead registry other).children otherHead =
          (orderHead registry tree).children head := by
  intro placed
  have forest := reachable.forest
  have released := forest.released_head headFound
  have names : nameOfExtension (tree.releaseChildren head) = nameOfExtension tree :=
    funext fun script => nameOfExtension_congr (released.kind? script)
  constructor
  · have arranged := arranged_listed registry (tree.releaseChildren head) (tree.children head)
    refine ⟨_, ⟨arranged.subset, arranged.sorted, arranged.single, ?_, arranged.listed⟩, ?_⟩
    · rw [← names]
      exact arranged.byName
    · rw [(orderHead_headOrdered registry forest headFound).children_head, map_node_listed]
      rfl
  · intro other otherHead otherReachable otherHeadFound unrepeated nodes order
    have otherForest := otherReachable.forest
    have otherReleased := otherForest.released_head otherHeadFound
    have kinds : ∀ child ∈ tree.children head,
        (other.releaseChildren otherHead).kind? child =
          (tree.releaseChildren head).kind? child := by
      intro child member
      rw [otherReleased.kind?, released.kind?, nodes.kind? child member]
    rw [(orderHead_headOrdered registry otherForest otherHeadFound).children_head,
      (orderHead_headOrdered registry forest headFound).children_head, headOrder, headOrder]
    refine canonicalOrder_eq_of_permuted (forest.nodup_children head) nodes.permuted ?_
      order.links ?_ ⟨unrepeated.single, ?_⟩ order.lists
    · exact fun child member => groupOf?_congr_at (kinds child member) (nodes.told child member)
    · exact fun child member => nameOfExtension_congr (kinds child member)
    · rw [names]
      exact unrepeated.byName

/-- A document with eight children of the head, in a given order. -/
def Tree.gatheredTree (order : List NodeId) : Tree :=
  Tree.built ([.createElement "html" [], .append root 1, .createElement "head" [], .append 1 2,
    .createElement "meta" [("charset", "utf-8")],
    .createElement "link" [("rel", "stylesheet")],
    .createElement "style" [("amp-custom", "")],
    .createElement "link" [("rel", "stylesheet")],
    .createElement "script" [("custom-element", "amp-b")],
    .createElement "script" [("custom-element", "amp-a")],
    .createElement "title" [],
    .createElement "meta" [("name", "viewport")]] ++ order.map (.append 2 ·))

/-- The scripts, the title and the declarations stand in another order, and the links on the
same sides of the custom stylesheet. Where nodes give their places to later ones, the others are
in the order of the groups. -/
theorem head_order_canonical_gatheredTree :
    let first := Tree.gatheredTree [9, 7, 4, 5, 8, 6, 10, 3]
    let second := Tree.gatheredTree [10, 3, 8, 4, 9, 7, 5, 6]
    (orderHead .published first).children 2 = [3, 10, 8, 7, 4, 5, 9, 6] ∧
      (orderHead .published second).children 2 = (orderHead .published first).children 2 ∧
      ∃ arranged, Arranged Tree.crowdedTree (placements .published
          (Tree.crowdedTree.releaseChildren 2) false (Tree.crowdedTree.children 2)) arranged ∧
        arranged.map (·.node) = [7, 13, 8, 9, 14, 4, 10] := by
  intro first second
  have reachable : first.Reachable := by
    unfold first Tree.gatheredTree
    exact Tree.reachable_built (by decide +kernel)
  have secondReachable : second.Reachable := by
    unfold second Tree.gatheredTree
    exact Tree.reachable_built (by decide +kernel)
  have headFound : first.head? = some 2 := by decide +kernel
  have secondHeadFound : second.head? = some 2 := by decide +kernel
  have size : first.size = 11 ∧ second.size = 11 := by decide +kernel
  have inside : ∀ id < 11, second.kind? id = first.kind? id ∧
      second.parent? id = first.parent? id ∧
      (id ≠ 2 → second.children id = first.children id) := by decide +kernel
  have readings : ∀ id, second.kind? id = first.kind? id ∧
      second.parent? id = first.parent? id ∧
      (id ≠ 2 → second.children id = first.children id) := by
    intro id
    rcases Nat.lt_or_ge id 11 with old | outside
    · exact inside id old
    · rw [← size.1] at outside
      have outsideToo := outside
      rw [size.1, ← size.2] at outsideToo
      rw [Tree.kind?_of_size_le outside, Tree.kind?_of_size_le outsideToo,
        Tree.parent?_of_size_le outside, Tree.parent?_of_size_le outsideToo,
        Tree.children_of_size_le outside, Tree.children_of_size_le outsideToo]
      exact ⟨rfl, rfl, fun _ => rfl⟩
  have nodes : SameNodes .published first second 2 2 :=
    .of_reordered .published reachable.forest secondReachable.forest headFound secondHeadFound
      ⟨size.2.trans size.1.symm, fun id => (readings id).1, by decide +kernel⟩
      (fun id => (readings id).2.1) (fun id => (readings id).2.2) (by decide +kernel)
  have inGroups : ∀ group ∈ HeadGroup.all,
      let found := nodesIn group
        (placements .published (first.releaseChildren 2) false (first.children 2))
      (group.isSingle = true → found.length ≤ 1) ∧
        (group.isByName = true → (found.map (nameOfExtension first)).Nodup) ∧
        (group.isSingle = false → group.isByName = false → found.Sublist (second.children 2)) := by
    decide +kernel
  obtain ⟨-, anyOrder⟩ := head_order_canonical reachable headFound .published
  have crowded : Tree.crowdedTree.Reachable := by
    unfold Tree.crowdedTree
    exact Tree.reachable_built (by decide +kernel)
  have crowdedHead : Tree.crowdedTree.head? = some 2 := by decide +kernel
  obtain ⟨⟨arranged, inOrder, listed⟩, -⟩ :=
    head_order_canonical crowded crowdedHead .published
  have left : (orderHead .published Tree.crowdedTree).children 2 = [7, 13, 8, 9, 14, 4, 10] := by
    decide +kernel
  refine ⟨by decide +kernel, anyOrder secondReachable secondHeadFound ⟨?_, ?_⟩ nodes ⟨?_, ?_⟩,
    arranged, inOrder, listed.symm.trans left⟩
  · exact fun group => (inGroups group group.mem_all).1
  · exact fun group => (inGroups group group.mem_all).2.1
  · exact fun group => (inGroups group group.mem_all).2.2
  · decide +kernel

end FirstPaint
