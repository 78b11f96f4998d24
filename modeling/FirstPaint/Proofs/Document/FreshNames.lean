import FirstPaint.Proofs.Document.Attributes
import FirstPaint.Proofs.Document.Forest

/-!
# Ids that are made up

A made-up id is a text with a number behind it, and the numbers are counted up. Candidates
that are ids of attached elements are passed over. Different numbers make different
candidates, so every candidate that is passed over uses up the id of another element, and
one attempt more than there are elements succeeds (`freshId_unused`). The number that a
counter starts with and the ids that authors have chosen make no difference.

So the id that an element ends up with is the one it had, or no other element has it
(`ensureId_origin`).
-/

set_option autoImplicit false

namespace FirstPaint

namespace Tree

/-- No attached element has the text as its id. -/
def Unused (tree : Tree) (text : String) : Prop :=
  ∀ id, tree.Below id root → tree.attribute? id "id" ≠ some text

/-- Different numbers make different candidates. -/
theorem candidate_injective (start : String) :
    Function.Injective fun number : Nat => start ++ toString number := by
  intro first second same
  have lists := congrArg String.toList same
  simp only [String.toList_append, List.append_cancel_left_eq] at lists
  have digits : Nat.toDigits 10 first = Nat.toDigits 10 second := by
    simpa only [Nat.toString_eq_repr, Nat.toList_repr] using lists
  simpa using congrArg (Nat.ofDigitChars 10 · 0) digits

section Search

variable {tree : Tree}

theorem Forest.elementWithId?_eq_none_iff (forest : tree.Forest) {text : String} :
    tree.elementWithId? text = none ↔ tree.Unused text := by
  rw [elementWithId?, List.find?_eq_none]
  refine forall_congr' fun id => ?_
  rw [forest.mem_descendants_iff]
  simp

/-- A name that is generated is counted. -/
theorem nextNumber_freshName (tree : Tree) (start : String) :
    (tree.freshName start).2.nextNumber start = tree.nextNumber start + 1 := by
  simp [freshName, nextNumber]

/-- What is read of a tree does not depend on its counters. -/
theorem Unused.of_nodes {after : Tree} (same : after.nodes = tree.nodes) {text : String}
    (unused : tree.Unused text) : after.Unused text := by
  have nodes : ∀ id, after.node? id = tree.node? id := fun id => by rw [node?, node?, same]
  intro id below
  have attributes : after.attribute? id "id" = tree.attribute? id "id" := by
    simp only [attribute?, element?, kind?, nodes]
  rw [attributes]
  refine unused id (below.mono fun child parent link => ?_)
  rwa [Tree.parent?, ← nodes]

/-- The search succeeds if there are no more candidates to pass over than further attempts. -/
theorem freshId_unused_of_taken (forest : tree.Forest) (attempts : Nat) (taken : List String)
    (enough : taken.length ≤ attempts)
    (covers : ∀ number, tree.nextNumber generatedIdStart ≤ number →
      ¬ tree.Unused (generatedIdStart ++ toString number) →
        generatedIdStart ++ toString number ∈ taken) :
    tree.Unused (freshId attempts tree).1 := by
  induction attempts generalizing tree taken with
  | zero =>
      have none : taken = [] := List.eq_nil_of_length_eq_zero (Nat.le_zero.mp enough)
      by_contra used
      have member := covers _ (Nat.le_refl _) used
      rw [none] at member
      exact absurd member List.not_mem_nil
  | succ attempts ih =>
      have counted : (tree.freshName generatedIdStart).2.Forest :=
        forest.congr (.of_nodes rfl)
      have name : (tree.freshName generatedIdStart).1 =
          generatedIdStart ++ toString (tree.nextNumber generatedIdStart) := rfl
      have backward : ∀ {text}, (tree.freshName generatedIdStart).2.Unused text →
          tree.Unused text := Unused.of_nodes rfl
      unfold freshId
      dsimp only
      split
      next isTaken =>
        have used : ¬ tree.Unused (generatedIdStart ++ toString
            (tree.nextNumber generatedIdStart)) := by
          intro unused
          have none := counted.elementWithId?_eq_none_iff.mpr (unused.of_nodes rfl)
          rw [name, none] at isTaken
          exact absurd isTaken (by simp)
        have member := covers _ (Nat.le_refl _) used
        refine backward (ih counted
          (taken.erase (generatedIdStart ++ toString (tree.nextNumber generatedIdStart))) ?_
          fun number later stillUsed => ?_)
        · rw [List.length_erase_of_mem member]
          omega
        · rw [nextNumber_freshName] at later
          -- A later number makes another candidate than the one that is passed over.
          have different : generatedIdStart ++ toString number ≠
              generatedIdStart ++ toString (tree.nextNumber generatedIdStart) := by
            intro same
            have := candidate_injective generatedIdStart same
            omega
          exact (List.mem_erase_of_ne different).mpr
            (covers number (by omega) fun unused => stillUsed (unused.of_nodes rfl))
      next free =>
        exact backward (counted.elementWithId?_eq_none_iff.mp (by simpa using free))

/-- **A made-up id is no id of an attached element.** -/
theorem freshId_unused (forest : tree.Forest) :
    tree.Unused (freshId (tree.descendants root).length tree).1 := by
  refine freshId_unused_of_taken forest _
    ((tree.descendants root).filterMap (tree.attribute? · "id"))
    (List.length_filterMap_le _ _) fun number _ used => ?_
  unfold Unused at used
  push Not at used
  obtain ⟨id, below, isId⟩ := used
  exact List.mem_filterMap.mpr ⟨id, forest.mem_descendants_iff.mpr below, isId⟩

/-- The id of an element is the one it had, or no attached element has it. -/
theorem ensureId_origin (forest : tree.Forest) (id : NodeId) :
    tree.attribute? id "id" = some (tree.ensureId id).1 ∨
      tree.attribute? id "id" = none ∧ tree.Unused (tree.ensureId id).1 := by
  unfold ensureId
  cases present : tree.attribute? id "id" with
  | some text => exact .inl rfl
  | none => exact .inr ⟨rfl, freshId_unused forest⟩

/-- What is found under an id does not depend on the counters. -/
theorem elementWithId?_freshName (tree : Tree) (start text : String) :
    (tree.freshName start).2.elementWithId? text = tree.elementWithId? text := by
  have descendants : ∀ levels id,
      (tree.freshName start).2.descendantsUpTo levels id = tree.descendantsUpTo levels id := by
    intro levels
    induction levels with
    | zero => exact fun _ => rfl
    | succ levels ih =>
        intro id
        simp only [descendantsUpTo, ih]
        rfl
  have candidates : (tree.freshName start).2.descendants root = tree.descendants root :=
    descendants tree.size root
  simp only [elementWithId?, candidates]
  rfl

/-- The number that is found is the next one whose name is not taken, and the counter is left
behind it. -/
theorem exists_number (attempts : Nat) (tree : Tree) :
    ∃ number, tree.nextNumber generatedIdStart ≤ number ∧
      number ≤ tree.nextNumber generatedIdStart + attempts ∧
      (freshId attempts tree).1 = generatedIdStart ++ toString number ∧
      (freshId attempts tree).2.nextNumber generatedIdStart = number + 1 ∧
      ∀ earlier, tree.nextNumber generatedIdStart ≤ earlier → earlier < number →
        (tree.elementWithId? (generatedIdStart ++ toString earlier)).isSome = true := by
  have first (tree : Tree) : (tree.freshName generatedIdStart).1 =
      generatedIdStart ++ toString (tree.nextNumber generatedIdStart) := rfl
  have counter (tree : Tree) := nextNumber_freshName tree generatedIdStart
  induction attempts generalizing tree with
  | zero =>
      exact ⟨_, Nat.le_refl _, Nat.le_refl _, first tree, counter tree,
        fun earlier low high => absurd high (Nat.not_lt.mpr low)⟩
  | succ attempts ih =>
      unfold freshId
      dsimp only
      split
      next taken =>
        obtain ⟨number, low, high, name, after, passed⟩ := ih (tree.freshName generatedIdStart).2
        rw [counter] at low high passed
        refine ⟨number, by omega, by omega, name, after, fun earlier atLeast less => ?_⟩
        rcases Nat.eq_or_lt_of_le atLeast with rfl | later
        · rwa [first, elementWithId?_freshName] at taken
        · rw [← elementWithId?_freshName tree generatedIdStart]
          exact passed earlier later less
      next =>
        exact ⟨_, Nat.le_refl _, Nat.le_add_right _ _, first tree, counter tree,
          fun earlier low high => absurd high (Nat.not_lt.mpr low)⟩

/-- A made-up id is a number behind a fixed text. -/
theorem exists_freshId_eq (attempts : Nat) (tree : Tree) :
    ∃ number : Nat, (freshId attempts tree).1 = generatedIdStart ++ toString number := by
  obtain ⟨number, -, -, name, -⟩ := exists_number attempts tree
  exact ⟨number, name⟩

theorem ensureId_eq (tree : Tree) (id : NodeId) :
    tree.attribute? id "id" = some (tree.ensureId id).1 ∨ tree.attribute? id "id" = none ∧
      ∃ number : Nat, (tree.ensureId id).1 = generatedIdStart ++ toString number := by
  unfold ensureId
  cases present : tree.attribute? id "id" with
  | some text => exact .inl rfl
  | none => exact .inr ⟨rfl, exists_freshId_eq _ tree⟩

/-- The element carries its id afterwards. -/
theorem attribute?_ensureId_id {id : NodeId} {element : Element}
    (isElement : tree.element? id = some element) :
    (tree.ensureId id).2.attribute? id "id" = some (tree.ensureId id).1 := by
  unfold ensureId
  cases present : tree.attribute? id "id" with
  | some text => exact present
  | none =>
      have counted : (freshId (tree.descendants root).length tree).2.element? id =
          some element := by
        rw [← isElement]
        simp only [element?, kind?, node?, freshId_nodes]
      rw [attribute?_of_element? (element?_setAttribute counted "id" _)]
      rw [Attributes.get?_insert, if_pos rfl]

end Search

end Tree

end FirstPaint
