import FirstPaint.Proofs.Document.FreshNames
import FirstPaint.Proofs.Pass.Ledger
import FirstPaint.Proofs.Responsive.StyleRules

/-!
# The ids of a rendered document

Rules address an element by its id, and an id is made up where there is none. It is taken
back when the rules are refused. So the ids of a document change in one way only: an element
without an id, whose rules are accepted, gets one that no attached element has
(`Tree.Named`). Ids that are pairwise distinct stay so, and every list of rules is anchored
at the id that its element has in the end (`Tree.Naming`).

Distinctness is a property of all attached elements together, so it is carried through the
visits one after another; what comes after the visits writes no id.
-/

set_option autoImplicit false

namespace FirstPaint

/-- The text is the rules that the attributes of the element ask for, at least one, and their
selectors are made of the name. -/
def Element.Anchors (element : Element) (css name : String) : Prop :=
  ∃ found rules, element.blockingStyles = .ok found ∧ rules ≠ [] ∧
    AnchoredRules (found.map (·.style)) name rules css

namespace Tree

/-- No two attached elements have the same id. -/
def DistinctIds (tree : Tree) : Prop :=
  ∀ {first second name}, tree.Below first root → tree.Below second root →
    tree.attribute? first "id" = some name → tree.attribute? second "id" = some name →
      first = second

/-- The id of a node before and after its rules have been accepted or not. -/
inductive Named (before after : Tree) (element : Element) (id : NodeId) : Option String → Prop where
  | same (same : after.attribute? id "id" = before.attribute? id "id") :
      Named before after element id none
  | anchored {css name : String} (anchors : element.Anchors css name)
      (named : after.attribute? id "id" = some name)
      (origin : before.attribute? id "id" = some name ∨
        before.attribute? id "id" = none ∧ before.Unused name) :
      Named before after element id (some css)

/-- The ids of a tree that comes from a first one, when some rules have been accepted. -/
structure Naming (first tree : Tree) (rules : List (NodeId × String)) : Prop where
  distinct : tree.DistinctIds
  kept : ∀ {id name}, first.attribute? id "id" = some name → tree.attribute? id "id" = some name
  /-- An element gets an id only with rules that are anchored at it. -/
  gained : ∀ {id name}, first.attribute? id "id" = none → tree.attribute? id "id" = some name →
    ∃ element css, first.element? id = some element ∧ (id, css) ∈ rules ∧ element.Anchors css name
  /-- Rules are anchored at the id that their element has. -/
  anchored : ∀ {id css}, (id, css) ∈ rules → ∃ element name,
    first.element? id = some element ∧ element.Anchors css name ∧
      tree.attribute? id "id" = some name

theorem lt_size_of_attribute? {tree : Tree} {id : NodeId} {name value : String}
    (found : tree.attribute? id name = some value) : id < tree.size := by
  obtain ⟨element, isElement, -⟩ := Option.bind_eq_some_iff.mp found
  exact lt_size_of_element? isElement

theorem Naming.refl {tree : Tree} (distinct : tree.DistinctIds) : Naming tree tree [] where
  distinct := distinct
  kept found := found
  gained none found := absurd (none.symm.trans found) (by simp)
  anchored member := absurd member List.not_mem_nil

theorem attribute?_id_of_unnamed {tree : Tree} {id : NodeId}
    (unnamed : ∀ {element}, tree.element? id = some element → element.Unnamed) :
    tree.attribute? id "id" = none :=
  Option.bind_eq_none_iff.mpr fun _ isElement => unnamed isElement

namespace Named

variable {before after : Tree} {element : Element} {id : NodeId} {rules? : Option String}
  {name : String}

/-- An id stays. -/
theorem keeps (named : Named before after element id rules?)
    (had : before.attribute? id "id" = some name) : after.attribute? id "id" = some name := by
  cases named with
  | same same => exact same.trans had
  | anchored _ named origin =>
      rcases origin with alike | ⟨none, -⟩
      · exact named.trans (alike.symm.trans had)
      · exact absurd (none.symm.trans had) (by simp)

/-- An id is old, or it was in no use and the rules are anchored at it. -/
theorem old_or_new (named : Named before after element id rules?)
    (has : after.attribute? id "id" = some name) :
    before.attribute? id "id" = some name ∨
      before.Unused name ∧ ∃ css, rules? = some css ∧ element.Anchors css name := by
  cases named with
  | same same => exact .inl (same.symm.trans has)
  | @anchored css _ anchors named origin =>
      rw [named] at has
      cases has
      exact origin.imp_right fun ⟨_, unused⟩ => ⟨unused, css, rfl, anchors⟩

end Named

/-- **One element may be named.** All others keep their ids, and what is new has none. -/
theorem Naming.named {first before after : Tree} {rules : List (NodeId × String)} {id : NodeId}
    {rules? : Option String} {element : Element} (naming : Naming first before rules)
    (isElement : first.element? id = some element) (attached : before.Below id root)
    (below : ∀ {other name}, after.attribute? other "id" = some name → after.Below other root →
      before.Below other root)
    (others : ∀ {other}, other ≠ id → other < before.size →
      after.attribute? other "id" = before.attribute? other "id")
    (fresh : ∀ {other}, before.size ≤ other → after.attribute? other "id" = none)
    (own : Named before after element id rules?) :
    Naming first after (rules ++ (rules?.map (id, ·)).toList) := by
  have keeps : ∀ {other name}, before.attribute? other "id" = some name →
      after.attribute? other "id" = some name := by
    intro other name had
    by_cases same : other = id
    · subst same
      exact own.keeps had
    · exact (others same (lt_size_of_attribute? had)).trans had
  have back : ∀ {other name}, after.attribute? other "id" = some name →
      before.attribute? other "id" = some name ∨ other = id ∧ before.Unused name ∧
        ∃ css, rules? = some css ∧ element.Anchors css name := by
    intro other name has
    by_cases same : other = id
    · subst same
      exact (own.old_or_new has).imp_right fun new => ⟨rfl, new⟩
    · have inside : other < before.size := by
        by_contra outside
        exact absurd ((fresh (Nat.le_of_not_lt outside)).symm.trans has) (by simp)
      exact .inl ((others same inside).symm.trans has)
  refine
    { distinct := fun {one two name} oneAttached twoAttached oneFound twoFound => ?_
      kept := fun found => keeps (naming.kept found)
      gained := fun {other name} none found => ?_
      anchored := fun {other css} member => ?_ }
  · have oneBefore := below oneFound oneAttached
    have twoBefore := below twoFound twoAttached
    rcases back oneFound with oneHad | ⟨oneSame, oneUnused, -⟩
    · rcases back twoFound with twoHad | ⟨-, twoUnused, -⟩
      · exact naming.distinct oneBefore twoBefore oneHad twoHad
      · exact absurd oneHad (twoUnused one oneBefore)
    · rcases back twoFound with twoHad | ⟨twoSame, -⟩
      · exact absurd twoHad (oneUnused two twoBefore)
      · exact oneSame.trans twoSame.symm
  · rcases back found with had | ⟨rfl, -, css, rfl, anchors⟩
    · obtain ⟨holder, css, isHolder, member, anchors⟩ := naming.gained none had
      exact ⟨holder, css, isHolder, List.mem_append_left _ member, anchors⟩
    · exact ⟨element, css, isElement, List.mem_append_right _ (by simp), anchors⟩
  · rcases List.mem_append.mp member with old | new
    · obtain ⟨holder, name, isHolder, anchors, had⟩ := naming.anchored old
      exact ⟨holder, name, isHolder, anchors, keeps had⟩
    · cases own with
      | same => exact absurd new (by simp)
      | @anchored css name anchors named =>
          simp only [Option.map_some, Option.toList_some, List.mem_singleton, Prod.mk.injEq] at new
          obtain ⟨rfl, rfl⟩ := new
          exact ⟨element, name, isElement, anchors, named⟩

/-- Edits that write no id and move no element into the document. -/
theorem Naming.edited {first before after : Tree} {rules : List (NodeId × String)}
    (naming : Naming first before rules)
    (below : ∀ {id name}, after.attribute? id "id" = some name → after.Below id root →
      before.Below id root)
    (old : ∀ {id}, id < before.size → after.attribute? id "id" = before.attribute? id "id")
    (fresh : ∀ {id}, before.size ≤ id → after.attribute? id "id" = none) :
    Naming first after rules := by
  have same : ∀ {id name}, after.attribute? id "id" = some name →
      before.attribute? id "id" = some name := by
    intro id name found
    by_cases inside : id < before.size
    · exact (old inside).symm.trans found
    · exact absurd ((fresh (Nat.le_of_not_lt inside)).symm.trans found) (by simp)
  have keeps : ∀ {id name}, before.attribute? id "id" = some name →
      after.attribute? id "id" = some name :=
    fun found => (old (lt_size_of_attribute? found)).trans found
  refine ⟨fun oneAttached twoAttached oneFound twoFound => ?_, fun found => ?_, ?_, ?_⟩
  · exact naming.distinct (below oneFound oneAttached) (below twoFound twoAttached)
      (same oneFound) (same twoFound)
  · exact keeps (naming.kept found)
  · exact fun none found => naming.gained none (same found)
  · intro id css member
    obtain ⟨element, name, isElement, anchors, had⟩ := naming.anchored member
    exact ⟨element, name, isElement, anchors, keeps had⟩

end Tree

/-! ## One visit -/

section Visit

variable {scope : Scope} {tree : Tree} {budget : Budget} {html id : NodeId} {element : Element}

/-- The id of an element after an attempt to move its attributes. -/
theorem moveToStylesheet_named (site : tree.Site scope html) (settled : budget.Settled tree)
    (written : scope.written id) (isElement : tree.element? id = some element) :
    tree.Named (moveToStylesheet budget tree id).tree element id
      (acceptedRules? budget tree id) := by
  have free : Ascii.lower "id" ∉ blockingNames := by with_unfolding_all decide
  have outcome := moveToStylesheet_outcome budget tree id
  obtain ⟨stays, -⟩ := element?_moveToStylesheet site settled written isElement
  generalize moveToStylesheet budget tree id = result at outcome stays
  generalize acceptedRules? budget tree id = rules? at outcome
  cases outcome with
  | unread => exact .same rfl
  | bare _ read => exact .same (attribute?_eraseFound (readBlocking_apart read free))
  | refused =>
      refine .same ?_
      rw [Tree.attribute?_of_element? isElement]
      exact Tree.attribute?_of_element? (stays (by simp)) "id"
  | @accepted _ found sameElement read something =>
      rw [isElement] at sameElement
      cases sameElement
      have named := Tree.attribute?_ensureId_id isElement
      obtain ⟨attributes, isNamed, -⟩ := element?_ensureId isElement
      have grows : tree.Grows scope Element.Plain (tree.ensureId id).2 :=
        ensureId_grows site written
      have added := element?_add (site.grown grows) (settled.grows site grows) isNamed
        (rulesFor found (tree.ensureId id).1)
      have rules := rulesFor_anchored found (tree.ensureId id).1
      have ruled := rules.ne_nil (exists_ne_nothing something)
      refine .anchored ⟨found, _, read, ruled, rules⟩ ?_ (Tree.ensureId_origin site.forest id)
      rw [attribute?_eraseFound (readBlocking_apart read free), Tree.attribute?_of_element? added,
        ← Tree.attribute?_of_element? isNamed, named]

namespace Rendering

variable {state : Rendering}

theorem Treated.named {budget : Budget} {after : Tree} (treated : Treated budget tree id after)
    (site : tree.Site scope html) (settled : budget.Settled tree) (written : scope.written id)
    (isElement : tree.element? id = some element) :
    tree.Named after element id (acceptedRules? budget tree id) := by
  have moved := moveToStylesheet_named site settled written isElement
  have lands := moveToStylesheet_lands site settled written
  cases treated with
  | moved => exact moved
  | @boxed box =>
      have tag := lands.grows.tag? (Tree.lt_size_of_element? isElement)
      rw [Tree.tag?, Tree.tag?, isElement] at tag
      obtain ⟨⟨_, _⟩, isMoved, -⟩ := Option.map_eq_some_iff.mp tag
      have same := LayoutBox.attribute?_applyTo lands.grows.forest isMoved box
        (show Ascii.lower "id" ∉ writtenNames by with_unfolding_all decide)
      generalize acceptedRules? budget tree id = rules? at moved ⊢
      cases moved with
      | same unchanged => exact .same (same.trans unchanged)
      | anchored anchors named origin => exact .anchored anchors (same.trans named) origin

theorem visit_named (site : state.tree.Site scope html)
    (settled : state.budget.Settled state.tree) (written : scope.written id)
    (isElement : state.tree.element? id = some element) :
    state.tree.Named (state.visit id).tree element id (state.visitRules? id) := by
  have visited := visit_visited state id
  generalize state.visitRules? id = rules? at visited ⊢
  generalize (state.visit id).budget = budget at visited
  generalize (state.visit id).tree = after at visited ⊢
  cases visited with
  | skipped => exact .same rfl
  | treated _ treated => exact treated.named site settled written isElement

end Rendering

end Visit

/-! ## A whole run -/

namespace Rendering

section Run

variable {state : Rendering} {html : NodeId} (registry : ScriptRegistry)
  (forest : state.tree.Forest) (found : state.tree.html? = some html)
  (settled : state.budget.Settled state.tree) (missing : state.budget.style? = none)
  (distinct : state.tree.DistinctIds)
include forest found settled missing distinct

/-- **The ids after any number of visits.** -/
theorem naming_of_split {ids rest : List NodeId}
    (split : (state.marked html).extensions = ids ++ rest) :
    state.tree.Naming (ids.foldl visit (state.marked html)).tree
      ((state.marked html).acceptedRules ids) := by
  have size : (state.marked html).tree.size = state.tree.size := Tree.size_modifyAttributes _
  induction ids using List.reverseRecOn generalizing rest with
  | nil =>
      have grows := marked_grows forest found
      refine (Tree.Naming.refl distinct).edited (fun named attached => ?_) (fun {id} _ => ?_)
        fun {id} isNew => Tree.attribute?_id_of_unnamed fun isElement => ?_
      · have inside := Tree.lt_size_of_attribute? named
        exact (grows.below_iff forest (Nat.lt_of_lt_of_eq inside size)).mp attached
      · exact Tree.attribute?_setAttribute_of_ne (by with_unfolding_all decide) "" id
      · have inside := Nat.lt_of_lt_of_eq (Tree.lt_size_of_element? isElement) size
        exact absurd inside (Nat.not_lt_of_le isNew)
  | append_singleton earlier id ih =>
      have after := footprint_of_split forest found settled missing split
      obtain ⟨split, extension, turn, last, rules⟩ := visits_of_split forest found split
      have earlierVisits := footprint_of_split forest found settled missing split
      have before := atTurn forest found extension settled
      have naming := ih split
      rw [last, rules]
      rw [last] at after
      rw [← turn] at naming earlierVisits
      have attached : (state.turn html id).tree.Below id Tree.root :=
        (earlierVisits.grows.isExtension ((marked_grows forest found).isExtension extension)).1
      obtain ⟨element, isElement, -⟩ := extension.exists_element
      have own := visit_named before.site before.settled extension
        (before.same.element?.trans isElement)
      -- The visit writes to its element alone.
      have itself := List.mem_singleton_self id
      have alone : (state.turn html id).tree.Site
          ((state.turn html id).tree.amongScope [id] [id]) html := by
        refine before.site.among (fun other member => ?_) fun other member => ?_
        · rwa [List.mem_singleton.mp member]
        · rw [List.mem_singleton.mp member]
          exact .inr (.inl extension)
      have grows := (visit_lands alone before.settled itself (.inr (.inl itself))).grows
      have fresh : ∀ {other}, (state.turn html id).tree.size ≤ other →
          ((state.turn html id).visit id).tree.attribute? other "id" = none := by
        intro other isNew
        refine Tree.attribute?_id_of_unnamed fun isElement => (after.fresh ?_ isElement).1
        exact Nat.le_trans (Nat.le_of_eq size) (Nat.le_trans before.size_le isNew)
      refine naming.named isElement attached (fun {other name} named below => ?_)
        (fun {other} different inside => ?_) fresh own
      · by_cases inside : other < (state.turn html id).tree.size
        · exact (grows.below_iff before.site.forest inside).mp below
        · rw [fresh (Nat.le_of_not_lt inside)] at named
          exact absurd named (by simp)
      · rw [Tree.attribute?, Tree.attribute?,
          grows.element? inside fun member => different (List.mem_singleton.mp member)]

omit missing distinct in
/-- What comes after the visits writes no id. -/
theorem attribute?_run {id : NodeId} (inside : id < (state.marked html).visitAll.tree.size) :
    (run registry state html).tree.attribute? id "id" =
      (state.marked html).visitAll.tree.attribute? id "id" := by
  cases headFound : state.tree.head? with
  | none => rw [run_headless forest found settled registry headFound]
  | some head =>
      obtain ⟨-, -, kinds⟩ := prepared_fronts registry forest found settled headFound
      have prepared : (state.prepared registry html head).tree.attribute? id "id" =
          (state.marked html).visitAll.tree.attribute? id "id" := by
        rw [Tree.attribute?, Tree.attribute?,
          Tree.element?_congr ((kinds id).trans (if_neg (Nat.ne_of_lt inside)))]
      cases needs : (state.prepared registry html head).needsBoilerplate with
      | true => rw [run_of_needed forest found headFound settled registry needs, prepared]
      | false =>
          obtain ⟨ids, swept⟩ := run_swept forest found headFound settled registry needs
          rw [Tree.attribute?, Tree.element?_congr (swept.pruned.kind? id), ← prepared]
          exact Tree.attribute?_setAttribute_of_ne (by with_unfolding_all decide) "" id

/-- **The ids after a run.** -/
theorem run_naming :
    state.tree.Naming (run registry state html).tree (state.runRules html) := by
  obtain ⟨edits, -, framed⟩ := run_framed registry forest found settled missing
  have visited := visitAll_footprint forest found settled missing
  have size : (state.marked html).tree.size = state.tree.size := Tree.size_modifyAttributes _
  have naming : state.tree.Naming (state.marked html).visitAll.tree (state.runRules html) :=
    naming_of_split forest found settled missing distinct (List.append_nil _).symm
  have fresh : ∀ {id}, state.tree.size ≤ id →
      (run registry state html).tree.attribute? id "id" = none :=
    fun isNew => Tree.attribute?_id_of_unnamed fun isElement => (framed.fresh isNew isElement).1
  refine naming.edited (fun {id name} named attached => ?_)
    (attribute?_run registry forest found settled) fun {id} isNew => fresh ?_
  · -- What has an id was there before the run, and so was the way up.
    have inside : id < state.tree.size := by
      by_contra outside
      rw [fresh (Nat.le_of_not_lt outside)] at named
      exact absurd named (by simp)
    exact visited.grows.below_of_below
      ((marked_grows forest found).below_of_below (framed.below_of_below forest inside attached))
  · exact Nat.le_trans (Nat.le_trans (Nat.le_of_eq size.symm) visited.size_le) isNew

end Run

end Rendering

open Rendering

/-- **Rendering creates no clash of ids.** If the ids of the attached elements are pairwise
distinct, they are so afterwards. Every id stays, an element gets one only with rules that are
anchored at it, and all accepted rules are anchored at the id that their element has in the
end. -/
theorem renderAhead_naming {tree : Tree} (registry : ScriptRegistry) (limit : Nat)
    (report : Report) (reachable : tree.Reachable) (distinct : tree.DistinctIds) :
    let rendered := renderAhead registry { limit } report tree
    (tree.html? = none → tree.Naming rendered.tree []) ∧
    ∀ html, tree.html? = some html →
      tree.Naming rendered.tree (movedRules limit report tree html) := by
  intro rendered
  have untouched : tree.Marked → tree.Naming rendered.tree [] := by
    intro marked
    have same : rendered.tree = tree :=
      congrArg Rendered.tree (renderAhead_of_marked marked registry _ report)
    rw [same]
    exact .refl distinct
  refine ⟨fun none => untouched fun html found => absurd (none.symm.trans found) (by simp), ?_⟩
  intro html found
  rw [movedRules]
  split
  next marked =>
    refine untouched fun other otherFound => ?_
    rw [found] at otherFound
    cases otherFound
    exact marked
  next unmarked =>
    have before : (start limit report tree).tree.Forest := reachable.forest
    have naming := run_naming registry before found (start_settled limit report tree) rfl distinct
    rwa [← (renderAhead_eq registry limit report found (by simpa using unmarked)).1] at naming

/-- A document with an image without an id, and with an element whose id looks like one that is
made up. -/
def Tree.claimedTree : Tree :=
  built [.createElement "html" [], .append root 1, .createElement "head" [], .append 1 2,
    .createElement "body" [], .append 1 3,
    .createElement "amp-img" [("media", "print"), ("heights", "9px")], .append 3 4,
    .createElement "p" [("id", "i-amp-0")], .append 3 5]

/-- The image gets the next id, and its rules are written for that id. -/
theorem renderAhead_naming_claimedTree :
    let final := (renderAhead .published { limit := 75000 } ∅ Tree.claimedTree).tree
    let css := "@media not print\x7b#i-amp-1\x7bdisplay:none;\x7d\x7d" ++
      "#i-amp-1>i-amphtml-sizer\x7bheight:9px\x7d;"
    final.DistinctIds ∧ final.attribute? 5 "id" = some "i-amp-0" ∧
      final.attribute? 4 "id" = some "i-amp-1" ∧
      movedRules 75000 ∅ Tree.claimedTree 1 = [(4, css)] ∧
      Element.Anchors (Element.ofPairs "amp-img" [("media", "print"), ("heights", "9px")]) css
        "i-amp-1" := by
  intro final css
  have reachable : Tree.claimedTree.Reachable := by
    unfold Tree.claimedTree
    exact Tree.reachable_built (by decide +kernel)
  have distinct : Tree.claimedTree.DistinctIds := by
    have unique : ∀ one < Tree.claimedTree.size, ∀ two < Tree.claimedTree.size,
        (Tree.claimedTree.attribute? one "id").isSome = true →
          Tree.claimedTree.attribute? one "id" = Tree.claimedTree.attribute? two "id" →
            one = two := by
      decide +kernel
    intro one two name _ _ oneFound twoFound
    refine unique one (Tree.lt_size_of_attribute? oneFound) two
      (Tree.lt_size_of_attribute? twoFound) ?_ (oneFound.trans twoFound.symm)
    rw [oneFound]
    rfl
  obtain ⟨-, namings⟩ := renderAhead_naming .published 75000 ∅ reachable distinct
  have naming := namings 1 (by decide +kernel)
  have gained : final.attribute? 4 "id" = some "i-amp-1" := by decide +kernel
  have moved : movedRules 75000 ∅ Tree.claimedTree 1 = [(4, css)] := by decide +kernel
  have known : Tree.claimedTree.element? 4 =
      some (Element.ofPairs "amp-img" [("media", "print"), ("heights", "9px")]) := by
    decide +kernel
  obtain ⟨element, name, isElement, anchors, named⟩ :=
    naming.anchored (by rw [moved]; exact List.mem_singleton_self _)
  cases known.symm.trans isElement
  cases gained.symm.trans named
  exact ⟨naming.distinct, naming.kept (by decide +kernel), gained, moved, anchors⟩

end FirstPaint
