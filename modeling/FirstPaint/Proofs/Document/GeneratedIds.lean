import FirstPaint.Proofs.Document.Calls
import FirstPaint.Proofs.Document.FreshNames

/-!
# Ids that are given once

An element without an id is given the next numbered name that no attached element has as its id.
To look for it means to try one number after another, and nothing says in advance how often
(`Search`). The search ends all the same, for no two numbers make the same name and there are
finitely many elements: the bounded search is this one (`search_freshId`).

The numbers are taken from a counter. No edit sets it back, whatever it does to the nodes, and a
search leaves it behind the number it has found. So the ids that are made up in the course of a
run have rising numbers (`Run.rising`), and none of them is made up twice.
-/

set_option autoImplicit false

namespace FirstPaint

namespace Tree

/-! ## The search -/

/-- Candidates are tried one after another until there is one that no attached element has as its
id. Nothing bounds the attempts. -/
inductive Search : Tree → String × Tree → Prop where
  | found {tree : Tree}
      (free : (tree.freshName generatedIdStart).2.elementWithId?
        (tree.freshName generatedIdStart).1 = none) :
      Search tree (tree.freshName generatedIdStart)
  | next {tree : Tree} {result : String × Tree}
      (taken : ((tree.freshName generatedIdStart).2.elementWithId?
        (tree.freshName generatedIdStart).1).isSome = true)
      (further : Search (tree.freshName generatedIdStart).2 result) :
      Search tree result

/-- There is one way for the search to end. -/
theorem Search.unique {tree : Tree} {first second : String × Tree} (search : Search tree first)
    (other : Search tree second) : first = second := by
  induction search with
  | found free =>
      cases other with
      | found => rfl
      | next taken => exact absurd free (Option.isSome_iff_ne_none.mp taken)
  | next taken _ ih =>
      cases other with
      | found free => exact absurd free (Option.isSome_iff_ne_none.mp taken)
      | next _ further => exact ih further

section Searching

variable {tree : Tree}

/-- A bounded search that ends with an unused name has not met its bound. -/
theorem search_of_unused (forest : tree.Forest) (attempts : Nat)
    (unused : tree.Unused (freshId attempts tree).1) : Search tree (freshId attempts tree) := by
  induction attempts generalizing tree with
  | zero =>
      have counted : (tree.freshName generatedIdStart).2.Forest := forest.congr (.of_nodes rfl)
      exact .found (counted.elementWithId?_eq_none_iff.mpr (unused.of_nodes rfl))
  | succ attempts ih =>
      have counted : (tree.freshName generatedIdStart).2.Forest := forest.congr (.of_nodes rfl)
      unfold freshId at unused ⊢
      dsimp only at unused ⊢
      split
      next taken =>
        rw [if_pos taken] at unused
        exact .next taken (ih counted (unused.of_nodes rfl))
      next free => exact .found (by simpa using free)

/-- The search ends. -/
theorem search_freshId (forest : tree.Forest) :
    Search tree (freshId (tree.descendants root).length tree) :=
  search_of_unused forest _ (freshId_unused forest)

end Searching

/-! ## The counter -/

section Counters

variable {tree next : Tree} {id : NodeId}

theorem counters_of_modify? {change : Node → Node} (done : tree.modify? id change = some next) :
    next.counters = tree.counters := by
  unfold modify? at done
  split at done
  next => cases done; rfl
  next => exact absurd done (by simp)

theorem counters_of_foldlM {step : Tree → NodeId → Option Tree}
    (keeps : ∀ {tree next id}, step tree id = some next → next.counters = tree.counters)
    {ids : List NodeId} (done : ids.foldlM step tree = some next) :
    next.counters = tree.counters := by
  induction ids generalizing tree with
  | nil => cases done; rfl
  | cons first rest ih =>
      rw [List.foldlM_cons] at done
      obtain ⟨middle, start, further⟩ := Option.bind_eq_some_iff.mp done
      exact (ih further).trans (keeps start)

theorem counters_of_detach? (done : tree.detach? id = some next) :
    next.counters = tree.counters := by
  obtain ⟨node, -, done⟩ := Option.bind_eq_some_iff.mp done
  split at done
  next => cases done; rfl
  next =>
    obtain ⟨orphaned, start, further⟩ := Option.bind_eq_some_iff.mp done
    exact (counters_of_modify? further).trans (counters_of_modify? start)

theorem counters_of_place? {parent child : NodeId} {arrange : List NodeId → List NodeId}
    (done : tree.place? parent child arrange = some next) : next.counters = tree.counters := by
  unfold place? at done
  split at done
  next =>
    obtain ⟨detached, start, done⟩ := Option.bind_eq_some_iff.mp done
    obtain ⟨listed, middle, further⟩ := Option.bind_eq_some_iff.mp done
    exact (counters_of_modify? further).trans
      ((counters_of_modify? middle).trans (counters_of_detach? start))
  next => cases done; rfl

theorem counters_of_append? {parent child : NodeId}
    (done : tree.append? parent child = some next) : next.counters = tree.counters :=
  counters_of_place? done

theorem counters_of_prepend? {parent child : NodeId}
    (done : tree.prepend? parent child = some next) : next.counters = tree.counters := by
  unfold prepend? at done
  split at done
  next => exact counters_of_place? done
  next => exact counters_of_place? done

theorem counters_of_releaseChildren? (done : tree.releaseChildren? id = some next) :
    next.counters = tree.counters := by
  obtain ⟨released, start, further⟩ := Option.bind_eq_some_iff.mp done
  exact (counters_of_foldlM counters_of_modify? further).trans (counters_of_modify? start)

theorem counters_of_moveChildren? {source target : NodeId}
    (done : tree.moveChildren? source target = some next) : next.counters = tree.counters := by
  obtain ⟨released, start, further⟩ := Option.bind_eq_some_iff.mp done
  exact (counters_of_foldlM counters_of_place? further).trans (counters_of_releaseChildren? start)

theorem counters_of_appendText? {addition : String}
    (done : tree.appendText? id addition = some next) : next.counters = tree.counters := by
  have created {after : Tree} (new : appendText?.appendNewText tree id addition = some after) :
      after.counters = tree.counters := by
    have placed : (tree.create (.text addition)).2.append? id tree.size = some after := new
    exact (counters_of_append? placed).trans rfl
  unfold appendText? at done
  split at done
  next =>
    split at done
    next => cases done; rfl
    next => exact created done
  next => exact created done

/-- The counters of other texts do not count. -/
theorem nextNumber_freshName_of_ne {start other : String} (apart : start ≠ other) :
    (tree.freshName start).2.nextNumber other = tree.nextNumber other := by
  have lookup (counters : List (String × Nat)) :
      (counters.filter (·.1 != start)).lookup other = counters.lookup other := by
    induction counters with
    | nil => rfl
    | cons first rest ih =>
        rw [List.filter_cons]
        split
        next => rw [List.lookup_cons, List.lookup_cons, ih]
        next same =>
          have same : first.1 = start := by simpa using same
          rw [ih, List.lookup_cons, same, beq_eq_false_iff_ne.mpr apart.symm]
  simp only [nextNumber, freshName, List.lookup_cons, beq_eq_false_iff_ne.mpr apart.symm, lookup]

end Counters

/-! ## Runs -/

/-- The ids that a call makes up. -/
def Call.generated (tree : Tree) : Call → List String
  | .ensureId id => if tree.attribute? id "id" = none then [(tree.ensureId id).1] else []
  | _ => []

/-- A run from a first tree to a later one, with the ids that are made up on the way. Any calls are
made, and nodes may change in any other way in between, as long as no counter is written. -/
inductive Run (first : Tree) : List String → Tree → Prop where
  | start : Run first [] first
  | call {made : List String} {tree next : Tree} {call : Call} (before : Run first made tree)
      (performed : call.perform? tree = some next) :
      Run first (made ++ call.generated tree) next
  | change {made : List String} {tree next : Tree} (before : Run first made tree)
      (counters : next.counters = tree.counters) : Run first made next

/-- Made-up ids whose numbers rise from one bound and stay below another. -/
def Rising (low high : Nat) (made : List String) : Prop :=
  low ≤ high ∧ ∃ numbers : List Nat,
    made = numbers.map (fun number => generatedIdStart ++ toString number) ∧
    numbers.Pairwise (· < ·) ∧ ∀ number ∈ numbers, low ≤ number ∧ number < high

namespace Rising

variable {low middle high : Nat} {made later : List String}

theorem none (bound : low ≤ high) : Rising low high [] :=
  ⟨bound, [], rfl, .nil, fun _ member => absurd member List.not_mem_nil⟩

theorem one {number : Nat} (atLeast : low ≤ number) :
    Rising low (number + 1) [generatedIdStart ++ toString number] := by
  refine ⟨by omega, [number], rfl, List.pairwise_singleton _ _, fun other member => ?_⟩
  rw [List.mem_singleton.mp member]
  omega

theorem append (earlier : Rising low middle made) (further : Rising middle high later) :
    Rising low high (made ++ later) := by
  obtain ⟨bound, numbers, rfl, rise, within⟩ := earlier
  obtain ⟨above, others, rfl, riseFurther, withinFurther⟩ := further
  refine ⟨bound.trans above, numbers ++ others, by rw [List.map_append], ?_, ?_⟩
  · refine List.pairwise_append.mpr ⟨rise, riseFurther, fun first isFirst second isSecond => ?_⟩
    exact Nat.lt_of_lt_of_le (within first isFirst).2 (withinFurther second isSecond).1
  · rw [List.forall_mem_append]
    refine ⟨fun number member => ?_, fun number member => ?_⟩
    · obtain ⟨atLeast, less⟩ := within number member
      exact ⟨atLeast, Nat.lt_of_lt_of_le less above⟩
    · obtain ⟨atLeast, less⟩ := withinFurther number member
      exact ⟨bound.trans atLeast, less⟩

/-- No id is there twice. -/
theorem nodup (rising : Rising low high made) : made.Nodup := by
  obtain ⟨-, numbers, rfl, rise, -⟩ := rising
  exact List.Nodup.map (candidate_injective generatedIdStart) (rise.imp Nat.ne_of_lt)

end Rising

section Runs

variable {first tree next : Tree} {id : NodeId} {call : Call}

theorem nextNumber_of_counters (same : next.counters = tree.counters) (start : String) :
    next.nextNumber start = tree.nextNumber start := by
  rw [nextNumber, nextNumber, same]

theorem ensureId_of_some {text : String} (present : tree.attribute? id "id" = some text) :
    tree.ensureId id = (text, tree) := by
  rw [ensureId, present]

theorem ensureId_of_none (absent : tree.attribute? id "id" = none) :
    tree.ensureId id = ((freshId (tree.descendants root).length tree).1,
      (freshId (tree.descendants root).length tree).2.setAttribute id "id"
        (freshId (tree.descendants root).length tree).1) := by
  rw [ensureId, absent]

/-- The number of an id that is made up is taken from the counter. -/
theorem rising_ensureId (absent : tree.attribute? id "id" = none) :
    Rising (tree.nextNumber generatedIdStart) ((tree.ensureId id).2.nextNumber generatedIdStart)
      [(tree.ensureId id).1] := by
  obtain ⟨number, atLeast, -, name, after, -⟩ := exists_number (tree.descendants root).length tree
  have counter : (tree.ensureId id).2.nextNumber generatedIdStart = number + 1 := by
    rw [ensureId_of_none absent]
    exact after
  rw [counter, ensureId_of_none absent, name]
  exact .one atLeast

/-- What a call makes up has its number from the counter, and no call sets the counter back. -/
theorem Call.rising (performed : call.perform? tree = some next) :
    Rising (tree.nextNumber generatedIdStart) (next.nextNumber generatedIdStart)
      (call.generated tree) := by
  have kept (same : next.counters = tree.counters) :
      Rising (tree.nextNumber generatedIdStart) (next.nextNumber generatedIdStart) [] :=
    .none (Nat.le_of_eq (nextNumber_of_counters same _).symm)
  cases call with
  | create kind => cases performed; exact kept rfl
  | createElement tag pairs => cases performed; exact kept rfl
  | append parent child => exact kept (counters_of_append? performed)
  | insertBefore parent child reference => exact kept (counters_of_place? performed)
  | prepend parent child => exact kept (counters_of_prepend? performed)
  | removeChild parent child =>
      simp only [Call.perform?] at performed
      split at performed
      next => exact kept (counters_of_detach? performed)
      next => cases performed; exact kept rfl
  | detach id => exact kept (counters_of_detach? performed)
  | releaseChildren id => exact kept (counters_of_releaseChildren? performed)
  | moveChildren source target => exact kept (counters_of_moveChildren? performed)
  | appendText id addition => exact kept (counters_of_appendText? performed)
  | setAttribute id name value => cases performed; exact kept rfl
  | eraseAttribute id name => cases performed; exact kept rfl
  | freshName start =>
      cases performed
      refine .none ?_
      by_cases same : start = generatedIdStart
      · rw [same, nextNumber_freshName]
        exact Nat.le_succ _
      · exact Nat.le_of_eq (nextNumber_freshName_of_ne same).symm
  | ensureId id =>
      cases performed
      simp only [Call.generated]
      split
      next absent => exact rising_ensureId absent
      next present =>
        obtain ⟨text, present⟩ := Option.ne_none_iff_exists'.mp present
        exact kept (by rw [ensureId_of_some present])

/-- **The ids that are made up in a run have rising numbers.** -/
theorem Run.rising {made : List String} (run : Run first made tree) :
    Rising (first.nextNumber generatedIdStart) (tree.nextNumber generatedIdStart) made := by
  induction run with
  | start => exact .none (Nat.le_refl _)
  | call _ performed ih => exact ih.append (Call.rising performed)
  | change _ counters ih => rwa [nextNumber_of_counters counters]

end Runs

/-! ## What an element is given -/

/-- An element without an id is given one. -/
structure GivesId (tree after : Tree) (id : NodeId) (element : Element) (name : String) :
    Prop where
  /-- The search ends, and in no other way. -/
  ends : ∃ counted, Search tree (name, counted) ∧
    ∀ result, Search tree result → result = (name, counted)
  /-- The numbers that are passed over belong to ids of other elements, and there are no more of
  them than there are attached nodes. -/
  numbered : ∃ number, name = generatedIdStart ++ toString number ∧
    tree.nextNumber generatedIdStart ≤ number ∧
    number ≤ tree.nextNumber generatedIdStart + (tree.descendants root).length ∧
    ∀ earlier, tree.nextNumber generatedIdStart ≤ earlier → earlier < number →
      ¬ tree.Unused (generatedIdStart ++ toString earlier)
  /-- No attached element had the id before. -/
  unused : tree.Unused name
  /-- The id comes after the attributes that the element had. -/
  carries : after.element? id =
    some ⟨element.tag, ⟨element.attributes.toList ++ [⟨"id", name⟩]⟩⟩
  /-- Nothing else changes. -/
  links : SameLinks tree after
  others : ∀ other, other ≠ id → after.kind? other = tree.kind? other

section Given

variable {tree : Tree} {id : NodeId} {element : Element}

theorem Forest.givesId (forest : tree.Forest) (isElement : tree.element? id = some element)
    (absent : element.attributes.get? "id" = none) :
    GivesId tree (tree.ensureId id).2 id element (tree.ensureId id).1 := by
  have given := ensureId_of_none ((attribute?_of_element? isElement "id").trans absent)
  have nodes := freshId_nodes (tree.descendants root).length tree
  have counted : (freshId (tree.descendants root).length tree).2.element? id = some element := by
    rw [← isElement]
    simp only [element?, kind?, node?, nodes]
  have search := search_freshId forest
  have links := ensureId_sameLinks tree id
  rw [given] at links ⊢
  refine ⟨⟨_, search, fun result other => other.unique search⟩, ?_, freshId_unused forest, ?_,
    links, fun other different => ?_⟩
  · obtain ⟨number, low, high, name, -, passed⟩ := exists_number (tree.descendants root).length tree
    refine ⟨number, name, low, high, fun earlier atLeast less unused => ?_⟩
    have taken := passed earlier atLeast less
    rw [forest.elementWithId?_eq_none_iff.mpr unused] at taken
    exact absurd taken (by simp)
  · have noId : element.attributes.contains "id" = false := by
      rw [← Attributes.isSome_get?, absent, Option.isSome_none]
    have lowered : Ascii.lower "id" = "id" := by with_unfolding_all decide
    have carried := Attributes.toList_insert_of_absent noId
      (freshId (tree.descendants root).length tree).1
    rw [lowered] at carried
    rw [element?_setAttribute counted "id", ← carried]
  · rw [setAttribute, kind?_modifyAttributes_of_ne _ different]
    simp only [kind?, node?, nodes]

end Given

/-- **Ids are fresh and stable.** An element that has an id keeps it, and nothing changes. An
element without one is given the next numbered name that no attached element has; the search for
it ends, and the element carries it from then on behind the attributes that it had. Asked again,
it has the same id. And whatever happens to the nodes in between, an id that has been made up in a
run is not made up in it again. -/
theorem ensureId_fresh_and_stable {tree : Tree} (reachable : tree.Reachable) {id : NodeId}
    {element : Element} (isElement : tree.element? id = some element) :
    let name := (tree.ensureId id).1
    let after := (tree.ensureId id).2
    (∀ text, element.attributes.get? "id" = some text → name = text ∧ after = tree) ∧
    (element.attributes.get? "id" = none → GivesId tree after id element name) ∧
    after.ensureId id = (name, after) ∧
    ∀ first made last, Run first made last → made.Nodup := by
  intro name after
  refine ⟨fun text present => ?_, reachable.forest.givesId isElement,
    ensureId_of_some (attribute?_ensureId_id isElement), fun _ _ _ run => run.rising.nodup⟩
  have kept := ensureId_of_some ((attribute?_of_element? isElement "id").trans present)
  exact ⟨congrArg Prod.fst kept, congrArg Prod.snd kept⟩

/-- A document with an element whose id looks made up, and an element without an id. -/
def numberedTree : Tree :=
  built [.createElement "div" [("id", "i-amp-0")], .append root 1,
    .createElement "amp-img" [("width", "9")], .append root 2]

/-- The name that is taken is passed over. An element that loses its id is given another one. -/
theorem ensureId_fresh_and_stable_numberedTree :
    let named := (numberedTree.ensureId 2).2
    let bare := named.eraseAttribute 2 "id"
    numberedTree.ensureId 1 = ("i-amp-0", numberedTree) ∧
    GivesId numberedTree named 2 ⟨"amp-img", ⟨[⟨"width", "9"⟩]⟩⟩ "i-amp-1" ∧
    named.ensureId 2 = ("i-amp-1", named) ∧
    Run numberedTree ["i-amp-1", "i-amp-2"] (bare.ensureId 2).2 ∧
    ["i-amp-1", "i-amp-2"].Nodup := by
  intro named bare
  have reachable : numberedTree.Reachable := reachable_built (by decide +kernel)
  have isTaken : numberedTree.element? 1 = some ⟨"div", ⟨[⟨"id", "i-amp-0"⟩]⟩⟩ := by
    decide +kernel
  have isImage : numberedTree.element? 2 = some ⟨"amp-img", ⟨[⟨"width", "9"⟩]⟩⟩ := by
    decide +kernel
  have name : (numberedTree.ensureId 2).1 = "i-amp-1" := by decide +kernel
  obtain ⟨kept, -, -, -⟩ := ensureId_fresh_and_stable reachable isTaken
  obtain ⟨-, gives, again, distinct⟩ := ensureId_fresh_and_stable reachable isImage
  rw [name] at gives again
  obtain ⟨same, unchanged⟩ := kept "i-amp-0" (by decide +kernel)
  have run : Run numberedTree ["i-amp-1", "i-amp-2"] (bare.ensureId 2).2 := by
    have second : (bare.ensureId 2).1 = "i-amp-2" := by decide +kernel
    have absent : numberedTree.attribute? 2 "id" = none ∧ bare.attribute? 2 "id" = none := by
      decide +kernel
    have made : ["i-amp-1", "i-amp-2"] = [] ++ (Call.ensureId 2).generated numberedTree ++
        (Call.eraseAttribute 2 "id").generated named ++ (Call.ensureId 2).generated bare := by
      simp [Call.generated, absent, name, second]
    rw [made]
    exact .call (.call (.call .start rfl) rfl) rfl
  exact ⟨Prod.ext same unchanged, gives (by decide +kernel), again, run, distinct _ _ _ run⟩

end Tree

end FirstPaint
