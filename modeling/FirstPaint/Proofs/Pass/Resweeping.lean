import FirstPaint.Proofs.Pass.HeadContents

/-!
# Ordering an ordered head

A second ordering changes nothing (`orderHead_orderHead`). The sweep over the canonical
order gives every node the group it had (`placements_canonicalOrder`), and out of the
nodes that stayed in a group all stay.

Only one decision of the sweep depends on what came before: a link to a style sheet is
kept ahead of the custom stylesheet if none has been passed, and goes to the other
nodes else (`groupOf?_passed`). In the canonical order the first kind stands ahead of
the custom stylesheet. The second kind exists only if a custom stylesheet was placed;
then one of them stays, and it stands ahead of the other nodes.
-/

set_option autoImplicit false

namespace FirstPaint

/-- The answers about a script depend on its tag and its attributes alone. -/
def ScriptRegistry.Local (registry : ScriptRegistry) : Prop :=
  ∀ (first second : Tree) (script : NodeId), first.element? script = second.element? script →
    registry.isRuntime first script = registry.isRuntime second script ∧
    registry.isViewer first script = registry.isViewer second script ∧
    registry.delaysRendering first script = registry.delaysRendering second script

/-- The answers about a script are the same in both documents. -/
def ScriptRegistry.AgreesOn (registry : ScriptRegistry) (first second : Tree) (script : NodeId) :
    Prop :=
  registry.isRuntime first script = registry.isRuntime second script ∧
    registry.isViewer first script = registry.isViewer second script ∧
    registry.delaysRendering first script = registry.delaysRendering second script

theorem ScriptRegistry.published_local : ScriptRegistry.published.Local := by
  intro first second script same
  have tagged : first.isTagged script "script" = second.isTagged script "script" := by
    simp only [Tree.isTagged, Tree.tag?, same]
  have present : ∀ name, first.hasAttribute script name = second.hasAttribute script name := by
    intro name
    simp only [Tree.hasAttribute, same]
  have values : ∀ name, first.attribute? script name = second.attribute? script name := by
    intro name
    simp only [Tree.attribute?, same]
  have paths : pathInCache? first script = pathInCache? second script := by
    unfold pathInCache?
    rw [tagged, present, present, values]
  refine ⟨?_, ?_, ?_⟩
  · simp only [published, paths]
  · simp only [published, paths]
  · simp only [published, tagged, values]

/-! ## Sweeping another tree with the same contents -/

section Content

variable {registry : ScriptRegistry} {before after : Tree}

theorem groupOf?_congr_at {node : NodeId} (same : after.kind? node = before.kind? node)
    (told : registry.AgreesOn after before node) (passed : Bool) :
    groupOf? registry after passed node = groupOf? registry before passed node := by
  have elements := Tree.element?_congr same
  obtain ⟨runtime, viewer, delays⟩ := told
  have present := Tree.hasAttribute_congr same
  have scripts : groupOfScript registry after node = groupOfScript registry before node := by
    unfold groupOfScript
    rw [runtime, viewer, delays, present, present]
  unfold groupOf?
  rw [elements, scripts, Tree.text?_congr same]

theorem groupOf?_congr (isLocal : registry.Local) (same : before.SameContent after)
    (passed : Bool) (node : NodeId) :
    groupOf? registry after passed node = groupOf? registry before passed node :=
  groupOf?_congr_at (same.kind? node)
    (isLocal after before node (Tree.element?_congr (same.kind? node))) passed

theorem placements_congr (isLocal : registry.Local) (same : before.SameContent after)
    (passed : Bool) (nodes : List NodeId) :
    placements registry after passed nodes = placements registry before passed nodes := by
  induction nodes generalizing passed with
  | nil => rfl
  | cons node rest ih => simp only [placements, groupOf?_congr isLocal same, ih]

theorem canonicalOrder_congr (isLocal : registry.Local) (same : before.SameContent after)
    (nodes : List NodeId) :
    canonicalOrder registry after nodes = canonicalOrder registry before nodes := by
  have names : nameOfExtension after = nameOfExtension before :=
    funext fun script => nameOfExtension_congr (same.kind? script)
  simp only [canonicalOrder, placements_congr isLocal same, HeadGroup.keep, names]

end Content

/-! ## What depends on the nodes before -/

section Passed

variable {registry : ScriptRegistry} {tree : Tree} {passed : Bool} {nodes : List NodeId}

theorem groupOfLink_passed (attributes : Attributes) :
    groupOfLink attributes true = groupOfLink attributes false ∨
      groupOfLink attributes false = .linkStylesBeforeCustom ∧
        groupOfLink attributes true = .others := by
  unfold groupOfLink
  by_cases sheet : Ascii.lower ((attributes.get? "rel").getD "") = "stylesheet"
  · by_cases runtime : (attributes.get? "href").any isRuntimeStyleAddress = true
    · exact .inl (by simp [sheet, runtime])
    · exact .inr (by simp [sheet, runtime])
  · exact .inl (by simp [sheet])

/-- A custom stylesheet before a node matters for links to style sheets only. -/
theorem groupOf?_passed (registry : ScriptRegistry) (tree : Tree) (node : NodeId) :
    groupOf? registry tree true node = groupOf? registry tree false node ∨
      groupOf? registry tree false node = some .linkStylesBeforeCustom ∧
        groupOf? registry tree true node = some .others := by
  unfold groupOf?
  cases tree.element? node with
  | none => exact .inl rfl
  | some element =>
      dsimp only
      split
      next => exact .inl rfl
      next => exact .inl rfl
      next => exact .inl rfl
      next =>
        rcases groupOfLink_passed element.attributes with same | ⟨before, behind⟩
        · exact .inl (congrArg some same)
        · exact .inr ⟨congrArg some before, congrArg some behind⟩
      next => exact .inl rfl
      next => exact .inl rfl

/-- A node has the group it is given without a custom stylesheet before it, or there
is one and it has the group it is given then. -/
theorem groupOf?_of_mem_placements {placed : Placed}
    (member : placed ∈ placements registry tree passed nodes) :
    groupOf? registry tree passed placed.node = some placed.group ∨
      groupOf? registry tree true placed.node = some placed.group ∧
        ∃ style, ⟨.styleCustom, style⟩ ∈ placements registry tree passed nodes := by
  induction nodes generalizing passed with
  | nil => exact absurd member (by simp [placements])
  | cons node rest ih =>
      unfold placements at member ⊢
      split at member
      next => exact ih member
      next group found =>
        rcases List.mem_cons.mp member with rfl | later
        · exact .inl found
        · by_cases custom : group = .styleCustom
          · subst custom
            rw [beq_self_eq_true, Bool.or_true] at later
            have given : groupOf? registry tree true placed.node = some placed.group := by
              rcases ih later with given | ⟨given, -⟩
              · exact given
              · exact given
            exact .inr ⟨given, node, List.mem_cons_self⟩
          · rw [beq_eq_false_iff_ne.mpr custom, Bool.or_false] at later ⊢
            rcases ih later with given | ⟨given, style, listed⟩
            · exact .inl given
            · exact .inr ⟨given, style, List.mem_cons_of_mem _ listed⟩

variable {group : HeadGroup} {node : NodeId}

/-- Outside the group of other nodes no custom stylesheet is needed before a node. -/
theorem groupOf?_false_of_mem_placements
    (member : ⟨group, node⟩ ∈ placements registry tree false nodes) (known : group ≠ .others) :
    groupOf? registry tree false node = some group := by
  rcases groupOf?_of_mem_placements member with given | ⟨given, -⟩
  · exact given
  · rcases groupOf?_passed registry tree node with same | ⟨-, other⟩
    · exact same.symm.trans given
    · exact absurd (Option.some.inj (given.symm.trans other)) known

/-- Behind the custom stylesheet only the links that stood ahead of it change. -/
theorem groupOf?_true_of_mem_placements
    (member : ⟨group, node⟩ ∈ placements registry tree false nodes)
    (behind : group ≠ .linkStylesBeforeCustom) : groupOf? registry tree true node = some group := by
  rcases groupOf?_of_mem_placements member with given | ⟨given, -⟩
  · rcases groupOf?_passed registry tree node with same | ⟨before, -⟩
    · exact same.trans given
    · exact absurd (Option.some.inj (given.symm.trans before)) behind
  · exact given

end Passed

/-! ## Sweeping what has been placed -/

/-- A sweep over the nodes gives each of them the group with which it is listed. -/
def Confirms (registry : ScriptRegistry) (tree : Tree) : Bool → List Placed → Prop
  | _, [] => True
  | passed, first :: rest =>
    groupOf? registry tree passed first.node = some first.group ∧
      Confirms registry tree (passed || first.group == .styleCustom) rest

section Confirms

variable {registry : ScriptRegistry} {tree : Tree} {passed : Bool}

theorem Confirms.placements {placed : List Placed}
    (confirms : Confirms registry tree passed placed) :
    placements registry tree passed (placed.map (·.node)) = placed := by
  induction placed generalizing passed with
  | nil => rfl
  | cons first rest ih =>
      obtain ⟨given, others⟩ := confirms
      have kept := ih others
      simp only [List.map_cons, FirstPaint.placements, given, kept]

theorem Confirms.append {front back : List Placed} (first : Confirms registry tree passed front)
    (second : Confirms registry tree (passed || front.any (·.group == .styleCustom)) back) :
    Confirms registry tree passed (front ++ back) := by
  induction front generalizing passed with
  | nil => simpa using second
  | cons placed rest ih =>
      obtain ⟨given, others⟩ := first
      rw [List.any_cons, ← Bool.or_assoc] at second
      exact ⟨given, ih others second⟩

/-- Among nodes that are no custom stylesheet the sweep keeps what it knows. -/
theorem confirms_of_forall {placed : List Placed}
    (given : ∀ member ∈ placed, groupOf? registry tree passed member.node = some member.group)
    (plain : ∀ member ∈ placed, member.group ≠ .styleCustom) :
    Confirms registry tree passed placed := by
  induction placed with
  | nil => trivial
  | cons first rest ih =>
      refine ⟨given first List.mem_cons_self, ?_⟩
      rw [beq_eq_false_iff_ne.mpr (plain first List.mem_cons_self), Bool.or_false]
      exact ih (fun member later => given member (List.mem_cons_of_mem first later))
        fun member later => plain member (List.mem_cons_of_mem first later)

end Confirms

/-! ## The canonical order with its groups -/

/-- The nodes of some groups, each with its group. -/
def listed (groups : List HeadGroup) (members : HeadGroup → List NodeId) : List Placed :=
  groups.flatMap fun group => (members group).map (⟨group, ·⟩)

section Listed

variable {members : HeadGroup → List NodeId} {group : HeadGroup} {groups : List HeadGroup}

theorem mem_listed_iff {placed : Placed} :
    placed ∈ listed groups members ↔
      placed.group ∈ groups ∧ placed.node ∈ members placed.group := by
  rw [listed, List.mem_flatMap]
  constructor
  · rintro ⟨group, known, member⟩
    obtain ⟨node, inGroup, rfl⟩ := List.mem_map.mp member
    exact ⟨known, inGroup⟩
  · rintro ⟨known, member⟩
    exact ⟨placed.group, known, List.mem_map.mpr ⟨placed.node, member, rfl⟩⟩

theorem group_ne_of_mem_listed {placed : Placed} (member : placed ∈ listed groups members)
    (absent : group ∉ groups) : placed.group ≠ group := by
  rintro rfl
  exact absent (mem_listed_iff.mp member).1

theorem map_node_listed (groups : List HeadGroup) (members : HeadGroup → List NodeId) :
    (listed groups members).map (·.node) = groups.flatMap members := by
  rw [listed, List.map_flatMap]
  refine List.flatMap_congr fun group _ => ?_
  rw [List.map_map]
  exact List.map_id' (members group)

theorem nodesIn_listed (distinct : groups.Nodup) :
    nodesIn group (listed groups members) = if group ∈ groups then members group else [] := by
  induction groups with
  | nil => simp [listed, nodesIn]
  | cons first rest ih =>
      obtain ⟨absent, others⟩ := List.nodup_cons.mp distinct
      have here : nodesIn group ((members first).map (⟨first, ·⟩)) =
          if group = first then members group else [] := by
        by_cases same : group = first
        · subst same
          simp [nodesIn, List.filter_map, Function.comp_def]
        · simp [nodesIn, List.filter_map, Function.comp_def, same, Ne.symm same]
      have split : nodesIn group (listed (first :: rest) members) =
          nodesIn group ((members first).map (⟨first, ·⟩)) ++
            nodesIn group (listed rest members) := by
        simp only [nodesIn, listed, List.flatMap_cons, List.filter_append, List.map_append]
      rw [split, here, ih others]
      by_cases same : group = first
      · subst same
        simp [absent]
      · simp [same]

end Listed

/-- The groups ahead of the custom stylesheet. -/
def HeadGroup.aheadOfCustom : List HeadGroup :=
  [.metaCharset, .linkStyleRuntime, .styleRuntime, .metaOther, .scriptRuntime, .scriptViewer,
    .scriptsDelaying, .scriptsNotDelaying, .linkIcons, .linkHints, .linkStylesBeforeCustom]

/-- The groups behind the custom stylesheet. -/
def HeadGroup.behindCustom : List HeadGroup := [.others, .styleBoilerplate, .noscript]

section Twice

variable (registry : ScriptRegistry) (tree : Tree) (nodes : List NodeId)

/-- The nodes that stay in a group. -/
def staying (group : HeadGroup) : List NodeId :=
  group.keep tree (nodesIn group (placements registry tree false nodes))

variable {registry tree nodes}

theorem mem_placements_of_staying {group : HeadGroup} {node : NodeId}
    (stays : node ∈ staying registry tree nodes group) :
    ⟨group, node⟩ ∈ placements registry tree false nodes :=
  mem_nodesIn_iff.mp (HeadGroup.mem_keep stays)

/-- The nodes ahead of the custom stylesheet need none before them. -/
theorem confirms_aheadOfCustom : Confirms registry tree false
    (listed HeadGroup.aheadOfCustom (staying registry tree nodes)) := by
  refine confirms_of_forall (fun member known => ?_)
    fun member known => group_ne_of_mem_listed known (by decide)
  have stays := (mem_listed_iff.mp known).2
  exact groupOf?_false_of_mem_placements (mem_placements_of_staying stays)
    (group_ne_of_mem_listed known (by decide))

/-- The nodes behind the custom stylesheet are confirmed once it has been passed, or where
there is none. -/
theorem confirms_behindCustom {passed : Bool}
    (known : ∀ style, ⟨.styleCustom, style⟩ ∈ placements registry tree false nodes →
      passed = true) :
    Confirms registry tree passed
      (listed HeadGroup.behindCustom (staying registry tree nodes)) := by
  refine confirms_of_forall (fun member listed => ?_)
    fun member listed => group_ne_of_mem_listed listed (by decide)
  have placed : ⟨member.group, member.node⟩ ∈ placements registry tree false nodes :=
    mem_placements_of_staying (mem_listed_iff.mp listed).2
  cases passed with
  | true => exact groupOf?_true_of_mem_placements placed (group_ne_of_mem_listed listed (by decide))
  | false =>
      -- Without a custom stylesheet the first sweep knew of none either.
      rcases groupOf?_of_mem_placements placed with given | ⟨-, style, found⟩
      · exact given
      · exact absurd (known style found) (by simp)

/-- The sweep over the canonical order confirms every group. -/
theorem confirms_listed :
    Confirms registry tree false (listed HeadGroup.all (staying registry tree nodes)) := by
  have split : listed HeadGroup.all (staying registry tree nodes) =
      listed HeadGroup.aheadOfCustom (staying registry tree nodes) ++
        (listed [.styleCustom] (staying registry tree nodes) ++
          listed HeadGroup.behindCustom (staying registry tree nodes)) := by
    simp only [listed, HeadGroup.all, HeadGroup.aheadOfCustom, HeadGroup.behindCustom,
      List.flatMap_cons, List.flatMap_nil, List.append_nil, List.append_assoc]
  have noneAhead : (listed HeadGroup.aheadOfCustom (staying registry tree nodes)).any
      (·.group == .styleCustom) = false := by
    rw [List.any_eq_false]
    intro member known
    simpa using group_ne_of_mem_listed known (by decide)
  -- The group of the custom stylesheet holds one node at most.
  have single : listed [.styleCustom] (staying registry tree nodes) =
      (nodesIn .styleCustom (placements registry tree false nodes)).getLast?.toList.map
        (⟨.styleCustom, ·⟩) := by
    rw [listed, List.flatMap_singleton]
    rfl
  rw [split]
  refine Confirms.append confirms_aheadOfCustom ?_
  rw [noneAhead, Bool.or_false, single]
  cases custom : (nodesIn .styleCustom (placements registry tree false nodes)).getLast? with
  | none =>
      refine confirms_behindCustom fun style placed => ?_
      rw [← mem_nodesIn_iff, List.getLast?_eq_none_iff.mp custom] at placed
      exact absurd placed (by simp)
  | some style =>
      have placed : ⟨.styleCustom, style⟩ ∈ placements registry tree false nodes :=
        mem_nodesIn_iff.mp (List.mem_of_getLast? custom)
      have given := groupOf?_false_of_mem_placements placed (by decide)
      exact ⟨given, confirms_behindCustom fun _ _ => rfl⟩

/-- In the canonical order every node falls into the group in which it stayed. -/
theorem placements_canonicalOrder :
    placements registry tree false (canonicalOrder registry tree nodes) =
      listed HeadGroup.all (staying registry tree nodes) := by
  have order : canonicalOrder registry tree nodes =
      (listed HeadGroup.all (staying registry tree nodes)).map (·.node) :=
    (map_node_listed HeadGroup.all (staying registry tree nodes)).symm
  rw [order]
  exact confirms_listed.placements

/-- The canonical order of nodes in canonical order is that order. -/
theorem canonicalOrder_canonicalOrder :
    canonicalOrder registry tree (canonicalOrder registry tree nodes) =
      canonicalOrder registry tree nodes := by
  rw [canonicalOrder_eq registry tree (canonicalOrder registry tree nodes),
    placements_canonicalOrder, canonicalOrder_eq registry tree nodes]
  refine List.flatMap_congr fun group known => ?_
  rw [nodesIn_listed (by decide), if_pos known]
  exact HeadGroup.keep_keep

end Twice

/-! ## Trees that read the same -/

/-- A tree is determined by what is read of it. -/
theorem Tree.eq_of_readings {before after : Tree} (content : before.SameContent after)
    (links : before.SameLinks after) : after = before := by
  have nodes := links.nodes_eq content.kind?
  cases before
  cases after
  simp only [Tree.mk.injEq]
  exact ⟨nodes, content.counters⟩

/-- **Ordering the head twice is ordering it once.** With a registry that looks at
nothing but the tag and the attributes of a script, a second run leaves every node with
its contents, its parent and its children exactly as the first run left them. -/
theorem orderHead_orderHead {tree : Tree} (reachable : tree.Reachable)
    {registry : ScriptRegistry} (isLocal : registry.Local) :
    orderHead registry (orderHead registry tree) = orderHead registry tree := by
  have forest := reachable.forest
  cases headFound : tree.head? with
  | none => simp only [orderHead, headFound]
  | some head =>
      have first := orderHead_headOrdered registry forest headFound
      obtain ⟨html, htmlFound, -⟩ := forest.exists_html_of_head? headFound
      have headStays := first.head? forest htmlFound headFound
      have second := orderHead_headOrdered registry first.forest headStays
      have sameOrder : headOrder registry (orderHead registry tree) head =
          headOrder registry tree head := by
        have released := (forest.released_head headFound).toSameContent
        have releasedAgain := (first.forest.released_head headStays).toSameContent
        have before := canonicalOrder_congr isLocal released
        have after := canonicalOrder_congr isLocal (first.toSameContent.trans releasedAgain)
        rw [headOrder, headOrder, first.children_head, headOrder, before, after]
        exact canonicalOrder_canonicalOrder
      refine Tree.eq_of_readings second.toSameContent ⟨fun id => ?_, fun id => ?_⟩
      · by_cases former : id ∈ (orderHead registry tree).children head
        · have stays : id ∈ headOrder registry (orderHead registry tree) head := by
            rwa [sameOrder, ← first.children_head]
          rw [second.parent?_former former, if_pos stays]
          exact (first.forest.mem_children_iff.mp former).symm
        · exact second.parent? former
      · by_cases here : id = head
        · subst here
          rw [second.children_head, first.children_head, sameOrder]
        · exact second.children here

/-- A document whose head has links to style sheets on both sides of two custom
stylesheets, a link to the style of the runtime, and three scripts for two extensions. -/
def Tree.linkedTree : Tree :=
  Tree.built [.createElement "html" [], .append root 1, .createElement "head" [], .append 1 2,
    .createElement "title" [], .append 2 3,
    .createElement "link" [("rel", "stylesheet")], .append 2 4,
    .createElement "style" [("amp-custom", "")], .append 2 5,
    .createElement "link" [("rel", "stylesheet")], .append 2 6,
    .createElement "style" [("amp-custom", "")], .append 2 7,
    .createElement "link" [("rel", "stylesheet"), ("href", "/v0.css")], .append 2 8,
    .createElement "script" [("custom-element", "amp-b")], .append 2 9,
    .createElement "script" [("custom-element", "amp-a")], .append 2 10,
    .createElement "script" [("custom-template", "amp-b")], .append 2 11]

theorem orderHead_orderHead_linkedTree :
    ScriptRegistry.published.Local ∧
      (orderHead .published Tree.linkedTree).children 2 = [8, 10, 11, 4, 7, 3, 6] ∧
      orderHead .published (orderHead .published Tree.linkedTree) =
        orderHead .published Tree.linkedTree := by
  have reachable : Tree.linkedTree.Reachable := by
    unfold Tree.linkedTree
    exact Tree.reachable_built (by decide +kernel)
  exact ⟨ScriptRegistry.published_local, by decide +kernel,
    orderHead_orderHead reachable ScriptRegistry.published_local⟩

end FirstPaint
