import FirstPaint.Proofs.Document.Reading

/-!
# Values of attributes

A value that is given is the one that is found, under any spelling of its name, and
the values of all other names stay (`Attributes.get?_insert`). A name that was not
there comes last, so taking it away again restores the attributes as they were
(`Attributes.erase_insert_of_absent`).

The attributes of a node of a tree are read through its element, so each edit of
attributes has one equation for the element of its node.
-/

set_option autoImplicit false

namespace FirstPaint

namespace Attributes

variable {attributes : Attributes} {name other value : String}

theorem find?_insertEntry (entry : Attribute) (list : List Attribute) (name : String) :
    (insertEntry entry list).find? (·.name == name) =
      if entry.name = name then some entry else list.find? (·.name == name) := by
  induction list with
  | nil =>
      by_cases same : entry.name = name
      · simp [insertEntry, same]
      · simp [insertEntry, same]
  | cons first rest ih =>
      unfold insertEntry
      split
      next replaced =>
        by_cases same : entry.name = name
        · simp [same]
        · simp [same, replaced]
      next kept =>
        rw [List.find?_cons, List.find?_cons, ih]
        by_cases same : first.name = name
        · -- The first entry has the name that is looked for, so the new one has not.
          have differs : ¬ entry.name = name := fun equal => kept (same.trans equal.symm)
          simp [same, differs]
        · have skipped : (first.name == name) = false := beq_eq_false_iff_ne.mpr same
          simp only [skipped]

/-- The value that is found after one has been given. -/
theorem get?_insert (attributes : Attributes) (name value other : String) :
    (attributes.insert name value).get? other =
      if Ascii.lower name = Ascii.lower other then some value else attributes.get? other := by
  unfold get?
  rw [insert, find?_insertEntry]
  split
  next => rfl
  next => rfl

theorem get?_insert_of_ne (different : Ascii.lower name ≠ Ascii.lower other) :
    (attributes.insert name value).get? other = attributes.get? other := by
  rw [get?_insert, if_neg different]

/-- A name that is never given is not found. -/
theorem get?_ofList_of_absent {pairs : List (String × String)}
    (absent : ∀ pair ∈ pairs, Ascii.lower pair.1 ≠ Ascii.lower name) :
    (ofList pairs).get? name = none := by
  have kept : ∀ attributes : Attributes, (pairs.foldl (fun attributes pair =>
      attributes.insert pair.1 pair.2) attributes).get? name = attributes.get? name := by
    induction pairs with
    | nil => exact fun _ => rfl
    | cons first rest ih =>
        rw [List.forall_mem_cons] at absent
        intro attributes
        rw [List.foldl_cons, ih absent.2, get?_insert_of_ne absent.1]
  exact kept ∅

theorem get?_erase_of_ne (different : Ascii.lower name ≠ Ascii.lower other) :
    (attributes.erase name).get? other = attributes.get? other := by
  unfold get? erase
  rw [List.find?_filter]
  refine congrArg (Option.map Attribute.value) (List.find?_congr fun entry _ => ?_)
  by_cases same : entry.name = Ascii.lower other
  · simp [same, Ne.symm different]
  · simp [same]

/-- An attribute is present exactly if it has a value. -/
theorem isSome_get? (attributes : Attributes) (name : String) :
    (attributes.get? name).isSome = attributes.contains name := by
  unfold get? contains
  rw [Option.isSome_map, List.isSome_find?]

theorem insertEntry_of_absent {entry : Attribute} {list : List Attribute}
    (absent : ∀ present ∈ list, present.name ≠ entry.name) :
    insertEntry entry list = list ++ [entry] := by
  induction list with
  | nil => rfl
  | cons first rest ih =>
      have others := ih fun present member => absent present (List.mem_cons_of_mem first member)
      rw [insertEntry, if_neg (absent first List.mem_cons_self), others, List.cons_append]

theorem toList_insert_of_absent (absent : attributes.contains name = false) (value : String) :
    (attributes.insert name value).toList = attributes.toList ++ [⟨Ascii.lower name, value⟩] := by
  refine insertEntry_of_absent fun present member => ?_
  simpa using List.any_eq_false.mp absent present member

/-- What was not there before is taken away without a trace. -/
theorem erase_insert_of_absent (absent : attributes.contains name = false) (value : String) :
    (attributes.insert name value).erase name = attributes := by
  have kept : attributes.toList.filter (·.name != Ascii.lower name) = attributes.toList := by
    refine List.filter_eq_self.mpr fun present member => ?_
    simpa using List.any_eq_false.mp absent present member
  unfold erase
  rw [toList_insert_of_absent absent, List.filter_append, kept]
  simp

end Attributes

namespace Tree

variable {tree : Tree} {id : NodeId} {element : Element}

theorem element?_modifyAttributes_self (found : tree.element? id = some element)
    (change : Attributes → Attributes) :
    (tree.modifyAttributes id change).element? id =
      some ⟨element.tag, change element.attributes⟩ := by
  rw [element?_modifyAttributes, if_pos rfl, found, Option.map_some]

theorem element?_setAttribute (found : tree.element? id = some element) (name value : String) :
    (tree.setAttribute id name value).element? id =
      some ⟨element.tag, element.attributes.insert name value⟩ :=
  element?_modifyAttributes_self found _

theorem element?_eraseAttribute (found : tree.element? id = some element) (name : String) :
    (tree.eraseAttribute id name).element? id =
      some ⟨element.tag, element.attributes.erase name⟩ :=
  element?_modifyAttributes_self found _

theorem element?_create_self (tree : Tree) (element : Element) :
    (tree.create (.element element)).2.element? tree.size = some element := by
  rw [element?_eq_some_iff, kind?_create, if_pos rfl]

theorem element?_create_of_ne {kind : NodeKind} (different : id ≠ tree.size) :
    (tree.create kind).2.element? id = tree.element? id :=
  element?_congr (by rw [kind?_create, if_neg different])

theorem attribute?_of_element? (found : tree.element? id = some element) (name : String) :
    tree.attribute? id name = element.attributes.get? name := by
  rw [attribute?, found, Option.bind_some]

theorem attribute?_eraseAttribute_of_ne {name other : String}
    (different : Ascii.lower name ≠ Ascii.lower other) :
    (tree.eraseAttribute id name).attribute? id other = tree.attribute? id other := by
  cases found : tree.element? id with
  | none =>
      rw [attribute?, attribute?, eraseAttribute, element?_modifyAttributes, if_pos rfl, found]
      rfl
  | some element =>
      rw [attribute?_of_element? (element?_eraseAttribute found name),
        attribute?_of_element? found, Attributes.get?_erase_of_ne different]

/-- Giving a value leaves the values under all other names alone. -/
theorem attribute?_setAttribute_of_ne {name other : String}
    (different : Ascii.lower name ≠ Ascii.lower other) (value : String) (node : NodeId) :
    (tree.setAttribute id name value).attribute? node other = tree.attribute? node other := by
  by_cases same : node = id
  · subst same
    cases found : tree.element? node with
    | none =>
        rw [attribute?, attribute?, setAttribute, element?_modifyAttributes, if_pos rfl, found]
        rfl
    | some element =>
        rw [attribute?_of_element? (element?_setAttribute found name value),
          attribute?_of_element? found, Attributes.get?_insert_of_ne different]
  · rw [attribute?, attribute?, setAttribute, element?_modifyAttributes, if_neg same]

theorem hasAttribute_of_element? (found : tree.element? id = some element) (name : String) :
    tree.hasAttribute id name = element.attributes.contains name := by
  rw [hasAttribute, found, Option.any_some]

theorem isTagged_of_element? (found : tree.element? id = some element) (tag : String) :
    tree.isTagged id tag = Ascii.sameName element.tag tag := by
  rw [isTagged, tag?, found, Option.map_some, Option.any_some]

end Tree

end FirstPaint
