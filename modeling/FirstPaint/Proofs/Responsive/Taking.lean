import FirstPaint.Proofs.Document.Attributes
import FirstPaint.Proofs.Responsive.Moving

/-!
# What moving takes from an element

An attempt to move the blocking attributes of an element leaves it in one of two
states. If there is a problem, the element is exactly what it was: an id that was made
up for the rules has been taken back. Otherwise it has lost its blocking attributes and
nothing else, and it may have got an id (`Attributes.Moved`).

Which attributes block is decided by their names alone, so what is left is a filter of
the attributes that were there (`Attributes.withoutBlocking`).
-/

set_option autoImplicit false

namespace FirstPaint

/-- The names of the attributes that block rendering. -/
def blockingNames : List String := ResponsiveAttribute.all.map ResponsiveAttribute.name

namespace Attributes

/-- The attributes without those that block rendering. -/
def withoutBlocking (attributes : Attributes) : Attributes :=
  ⟨attributes.toList.filter (·.name ∉ blockingNames)⟩

/-- The attributes of an element before and after its blocking ones have been moved. -/
inductive Moved (before : Attributes) : Attributes → Prop where
  | bare : Moved before before.withoutBlocking
  /-- The rules needed an id, and there was none. -/
  | named (fresh : String) (noId : before.contains "id" = false) :
      Moved before (before.insert "id" fresh).withoutBlocking

variable {attributes : Attributes} {name : String}

theorem get?_withoutBlocking (apart : Ascii.lower name ∉ blockingNames) :
    attributes.withoutBlocking.get? name = attributes.get? name := by
  unfold get? withoutBlocking
  rw [List.find?_filter]
  refine congrArg (Option.map Attribute.value) (congrArg (List.find? · attributes.toList) ?_)
  funext entry
  by_cases same : entry.name = Ascii.lower name
  · simp [same, apart]
  · simp [same]

/-- Moving changes no other value. -/
theorem Moved.get?_eq {after : Attributes} (moved : attributes.Moved after) (name : String)
    (apart : Ascii.lower name ∉ "id" :: blockingNames) :
    after.get? name = attributes.get? name := by
  have lowered : Ascii.lower "id" = "id" := by with_unfolding_all decide
  rw [List.mem_cons, not_or] at apart
  obtain ⟨noId, noBlocking⟩ := apart
  cases moved with
  | bare => exact get?_withoutBlocking noBlocking
  | named fresh =>
      rw [get?_withoutBlocking noBlocking]
      refine get?_insert_of_ne ?_
      rw [lowered]
      exact Ne.symm noId

/-- Names taken away one after another. -/
theorem foldl_erase (found : List FoundStyle) (attributes : Attributes) :
    found.foldl (fun attributes entry => attributes.erase entry.name) attributes =
      ⟨attributes.toList.filter fun entry => found.all (entry.name != Ascii.lower ·.name)⟩ := by
  induction found generalizing attributes with
  | nil => simp
  | cons first rest ih =>
      rw [List.foldl_cons, ih]
      simp only [erase, List.filter_filter, List.all_cons, Bool.and_comm]

end Attributes

/-! ## Which attributes are found -/

/-- Every blocking attribute is called by its name in lower case. -/
theorem ResponsiveAttribute.isSome_ofName? (name : String) :
    (ofName? name).isSome = true ↔ Ascii.lower name ∈ blockingNames := by
  have lowered : ∀ blocking ∈ all, Ascii.lower blocking.name = blocking.name := by
    with_unfolding_all decide
  unfold ofName? blockingNames
  rw [List.isSome_find?, List.any_eq_true, List.mem_map]
  refine exists_congr fun blocking => and_congr_right fun member => ?_
  rw [Ascii.sameName, lowered blocking member, beq_iff_eq]

/-- Names in lower case stay as they are. -/
theorem lower_of_mem_blockingNames {name : String} (member : name ∈ blockingNames) :
    Ascii.lower name = name := by
  have lowered : ∀ name ∈ blockingNames, Ascii.lower name = name := by with_unfolding_all decide
  exact lowered name member

/-- What is found at the first attribute, and then at the others. -/
theorem readBlocking_cons {hasImageSources : Bool} {first : Attribute} {rest : List Attribute}
    {found : List FoundStyle} (read : readBlocking hasImageSources (first :: rest) = .ok found) :
    ResponsiveAttribute.ofName? first.name = none ∧ readBlocking hasImageSources rest = .ok found ∨
      ∃ blocking style more, ResponsiveAttribute.ofName? first.name = some blocking ∧
        ResponsiveStyle.read blocking first.value hasImageSources = .ok style ∧
        readBlocking hasImageSources rest = .ok more ∧ found = ⟨first.name, style⟩ :: more := by
  unfold readBlocking at read
  cases kind : ResponsiveAttribute.ofName? first.name with
  | none =>
      simp only [kind] at read
      exact .inl ⟨rfl, read⟩
  | some blocking =>
      simp only [kind] at read
      cases style : ResponsiveStyle.read blocking first.value hasImageSources with
      | error problem =>
          rw [style] at read
          exact absurd read (by simp [bind, Except.bind])
      | ok first =>
          rw [style] at read
          cases others : readBlocking hasImageSources rest with
          | error problem =>
              rw [others] at read
              exact absurd read (by simp [bind, Except.bind])
          | ok more =>
              rw [others] at read
              cases read
              exact .inr ⟨blocking, first, more, rfl, style, rfl, rfl⟩

/-- The attributes that are found are those with a blocking name. -/
theorem names_of_readBlocking {hasImageSources : Bool} {entries : List Attribute}
    {found : List FoundStyle} (read : readBlocking hasImageSources entries = .ok found) :
    found.map (·.name) =
      (entries.map (·.name)).filter fun name => (ResponsiveAttribute.ofName? name).isSome := by
  induction entries generalizing found with
  | nil =>
      cases read
      rfl
  | cons first rest ih =>
      rcases readBlocking_cons read with ⟨none, others⟩ | ⟨_, _, _, some, -, others, rfl⟩
      · simp [none, ih others]
      · simp [some, ih others]

/-- Attributes that are found to block rendering have none of the other names. -/
theorem readBlocking_apart {hasImageSources : Bool} {entries : List Attribute}
    {found : List FoundStyle} (read : readBlocking hasImageSources entries = .ok found)
    {other : String} (free : Ascii.lower other ∉ blockingNames) :
    ∀ entry ∈ found, Ascii.lower entry.name ≠ Ascii.lower other := by
  intro entry member same
  have listed : entry.name ∈ found.map (·.name) := List.mem_map_of_mem member
  rw [names_of_readBlocking read, List.mem_filter, ResponsiveAttribute.isSome_ofName?] at listed
  exact free (same ▸ listed.2)

/-- Taking away what was found takes away what blocks rendering. -/
theorem foldl_erase_eq_withoutBlocking {hasImageSources : Bool} {entries : List Attribute}
    {found : List FoundStyle} {attributes : Attributes}
    (read : readBlocking hasImageSources entries = .ok found)
    (covered : ∀ entry ∈ attributes.toList, entry.name ∈ blockingNames →
      entry.name ∈ entries.map (·.name)) :
    found.foldl (fun attributes entry => attributes.erase entry.name) attributes =
      attributes.withoutBlocking := by
  have names := names_of_readBlocking read
  rw [Attributes.foldl_erase, Attributes.withoutBlocking]
  refine congrArg Attributes.mk (List.filter_congr fun entry member => ?_)
  rw [Bool.eq_iff_iff, List.all_eq_true, decide_eq_true_iff]
  constructor
  · intro kept blocks
    have lowered := lower_of_mem_blockingNames blocks
    have listed : entry.name ∈ found.map (·.name) := by
      rw [names, List.mem_filter, ResponsiveAttribute.isSome_ofName?, lowered]
      exact ⟨covered entry member blocks, blocks⟩
    obtain ⟨style, isFound, same⟩ := List.mem_map.mp listed
    have different := kept style isFound
    rw [same, lowered] at different
    exact absurd different (by simp)
  · intro free style isFound
    have listed : style.name ∈ found.map (·.name) := List.mem_map_of_mem isFound
    rw [names, List.mem_filter, ResponsiveAttribute.isSome_ofName?] at listed
    rw [bne_iff_ne]
    intro same
    rw [same] at free
    exact free listed.2

/-! ## The element of an attempt -/

section Attempt

variable {scope : Scope} {tree : Tree} {html id : NodeId} {element : Element} {budget : Budget}

theorem element?_eraseFound (isElement : tree.element? id = some element)
    (found : List FoundStyle) :
    (eraseFound tree id found).element? id = some ⟨element.tag,
      found.foldl (fun attributes entry => attributes.erase entry.name) element.attributes⟩ := by
  induction found generalizing tree element with
  | nil => exact isElement
  | cons first rest ih => exact ih (Tree.element?_eraseAttribute isElement first.name)

theorem attribute?_eraseFound {found : List FoundStyle} {other : String}
    (apart : ∀ entry ∈ found, Ascii.lower entry.name ≠ Ascii.lower other) :
    (eraseFound tree id found).attribute? id other = tree.attribute? id other := by
  induction found generalizing tree with
  | nil => rfl
  | cons first rest ih =>
      rw [List.forall_mem_cons] at apart
      exact (ih apart.2).trans (Tree.attribute?_eraseAttribute_of_ne apart.1)

/-- An element with an id keeps it, and one without gets one. -/
theorem element?_ensureId (isElement : tree.element? id = some element) :
    ∃ attributes, (tree.ensureId id).2.element? id = some ⟨element.tag, attributes⟩ ∧
      (tree.hasAttribute id "id" = true ∧ attributes = element.attributes ∨
        tree.hasAttribute id "id" = false ∧
          ∃ fresh, attributes = element.attributes.insert "id" fresh) := by
  have present := Attributes.isSome_get? element.attributes "id"
  rw [Tree.hasAttribute_of_element? isElement, ← present]
  unfold Tree.ensureId
  rw [Tree.attribute?_of_element? isElement]
  cases element.attributes.get? "id" with
  | some _ => exact ⟨element.attributes, isElement, .inl ⟨rfl, rfl⟩⟩
  | none =>
      have counted : (Tree.freshId (tree.descendants Tree.root).length tree).2.element? id =
          some element := by
        rw [← isElement]
        simp only [Tree.element?, Tree.kind?, Tree.node?, Tree.freshId_nodes]
      exact ⟨_, Tree.element?_setAttribute counted "id" _, .inr ⟨rfl, _, rfl⟩⟩

/-- An id that is made up is no style. -/
theorem attribute?_ensureId (isElement : tree.element? id = some element) :
    (tree.ensureId id).2.attribute? id "style" = tree.attribute? id "style" := by
  obtain ⟨attributes, named, origin⟩ := element?_ensureId isElement
  rw [Tree.attribute?_of_element? named, Tree.attribute?_of_element? isElement]
  rcases origin with ⟨-, rfl⟩ | ⟨-, fresh, rfl⟩
  · rfl
  · exact Attributes.get?_insert_of_ne (by with_unfolding_all decide)

/-- Adding rules writes no attribute. -/
theorem element?_add (site : tree.Site scope html) (settled : budget.Settled tree)
    (isElement : tree.element? id = some element) (css : String) :
    (budget.add tree css).tree.element? id = some element := by
  have still : tree.Site ⟨fun _ => False, scope.given⟩ html :=
    site.mono (fun _ none => none.elim) rfl
  have grows := (Budget.add_lands still settled css).grows
  rw [grows.element? (Tree.lt_size_of_element? isElement) not_false, isElement]

/-- The element after rules have been added for it: with an id if they were accepted, and
as it was if they were refused. -/
theorem element?_addRules (site : tree.Site scope html) (settled : budget.Settled tree)
    (written : scope.written id) (isElement : tree.element? id = some element)
    (found : List FoundStyle) :
    let result := addRules budget tree id found
    (result.problem? ≠ none → result.tree.element? id = some element) ∧
      (result.problem? = none → ∃ attributes,
        result.tree.element? id = some ⟨element.tag, attributes⟩ ∧
          (attributes = element.attributes ∨ element.attributes.contains "id" = false ∧
            ∃ fresh, attributes = element.attributes.insert "id" fresh)) := by
  intro result
  obtain ⟨attributes, named, origin⟩ := element?_ensureId isElement
  have grows : tree.Grows scope Element.Plain (tree.ensureId id).2 := ensureId_grows site written
  have added := element?_add (site.grown grows) (settled.grows site grows) named
    (rulesFor found (tree.ensureId id).1)
  have absent := Tree.hasAttribute_of_element? isElement "id"
  simp only [result, addRules]
  split
  next accepted =>
    refine ⟨fun problem => absurd rfl problem, fun _ => ⟨attributes, added, ?_⟩⟩
    rw [absent] at origin
    exact origin.imp_left And.right
  next reason refused =>
    refine ⟨fun _ => ?_, fun none => absurd none (by simp)⟩
    rcases origin with ⟨hadId, rfl⟩ | ⟨noId, fresh, rfl⟩
    · rw [if_pos hadId]
      exact added
    · rw [noId, if_neg (by simp), Tree.element?_eraseAttribute added "id",
        Attributes.erase_insert_of_absent (absent.symm.trans noId)]

/-- What was found is taken away from an element that may have got an id for it. -/
theorem exists_moved {found : List FoundStyle} {attributes : Attributes}
    (read : element.blockingStyles = .ok found)
    (named : tree.element? id = some ⟨element.tag, attributes⟩)
    (origin : attributes = element.attributes ∨ element.attributes.contains "id" = false ∧
      ∃ fresh, attributes = element.attributes.insert "id" fresh) :
    ∃ moved, element.attributes.Moved moved ∧
      (eraseFound tree id found).element? id = some ⟨element.tag, moved⟩ := by
  have covered : ∀ entry ∈ element.attributes.toList, entry.name ∈ blockingNames →
      entry.name ∈ element.attributes.toList.map (·.name) :=
    fun entry member _ => List.mem_map_of_mem member
  rw [element?_eraseFound named]
  rcases origin with rfl | ⟨noId, fresh, rfl⟩
  · exact ⟨_, .bare, by rw [foldl_erase_eq_withoutBlocking read covered]⟩
  · refine ⟨_, .named fresh noId, ?_⟩
    rw [foldl_erase_eq_withoutBlocking read fun entry member blocks => ?_]
    rw [Attributes.toList_insert_of_absent noId] at member
    rcases List.mem_append.mp member with old | new
    · exact covered entry old blocks
    · -- The id that was made up blocks nothing.
      have noBlocking : Ascii.lower "id" ∉ blockingNames := by with_unfolding_all decide
      rw [List.mem_singleton.mp new] at blocks
      exact absurd blocks noBlocking

/-- **The element after an attempt to move its blocking attributes.** -/
theorem element?_moveToStylesheet (site : tree.Site scope html) (settled : budget.Settled tree)
    (written : scope.written id) (isElement : tree.element? id = some element) :
    let result := moveToStylesheet budget tree id
    (result.problem? ≠ none → result.tree.element? id = some element) ∧
      (result.problem? = none → ∃ moved, element.attributes.Moved moved ∧
        result.tree.element? id = some ⟨element.tag, moved⟩) := by
  intro result
  have styles : (tree.element? id).map Element.blockingStyles = some element.blockingStyles := by
    rw [isElement, Option.map_some]
  cases read : element.blockingStyles with
  | error problem =>
      rw [read] at styles
      simp only [result, moveToStylesheet, styles]
      exact ⟨fun _ => isElement, fun none => absurd none (by simp)⟩
  | ok found =>
      rw [read] at styles
      simp only [result, moveToStylesheet, styles]
      split
      next =>
        exact ⟨fun problem => absurd rfl problem, fun _ => exists_moved read isElement (.inl rfl)⟩
      next =>
        obtain ⟨refused, accepted⟩ := element?_addRules site settled written isElement found
        cases problem : (addRules budget tree id found).problem? with
        | some reason =>
            refine ⟨fun _ => refused (by simp [problem]), fun none => ?_⟩
            exact absurd (problem.symm.trans none) (by simp)
        | none =>
            obtain ⟨attributes, added, origin⟩ := accepted problem
            exact ⟨fun some => absurd rfl some, fun _ => exists_moved read added origin⟩

/-- Whether an attribute cannot be read is a matter of the element alone. -/
theorem moveToStylesheet_malformed_iff (isElement : tree.element? id = some element)
    {problem : UnreadableSizes} :
    (moveToStylesheet budget tree id).problem? = some (.malformed problem) ↔
      element.blockingStyles = .error problem := by
  have styles : (tree.element? id).map Element.blockingStyles = some element.blockingStyles := by
    rw [isElement, Option.map_some]
  cases read : element.blockingStyles with
  | error other =>
      rw [read] at styles
      simp only [moveToStylesheet, styles]
      simp
  | ok found =>
      rw [read] at styles
      refine ⟨fun unread => ?_, fun unread => absurd unread (by simp)⟩
      simp only [moveToStylesheet, styles] at unread
      split at unread
      next => exact absurd unread (by simp)
      next =>
        have refusal := addRules_problem? budget tree id found
        cases added : (addRules budget tree id found).problem? with
        | none => simp [added] at unread
        | some reason =>
            simp only [added] at unread
            rw [unread] at added
            rw [added] at refusal
            obtain ⟨_, -, differs⟩ := Option.map_eq_some_iff.mp refusal.symm
            exact absurd differs (by simp)

end Attempt

end FirstPaint
