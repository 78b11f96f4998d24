import FirstPaint.Proofs.Document.Ending
import FirstPaint.Proofs.Layout.StyleGrowth

/-!
# What applying a layout can do

There are three ways in which a layout can be applied to a node (`LayoutBox.Applied`):
nothing happens, attributes of the node are written, or attributes are written and a new
element comes in front of the children. The elements that come are sizers and images; they
are no stylesheets and have no id.
-/

set_option autoImplicit false

namespace FirstPaint

/-- The element has no id. -/
def Element.Unnamed (element : Element) : Prop := element.attributes.get? "id" = none

theorem Element.unnamed_ofPairs {pairs : List (String × String)}
    (absent : ∀ pair ∈ pairs, Ascii.lower pair.1 ≠ Ascii.lower "id") (tag : String) :
    (Element.ofPairs tag pairs).Unnamed :=
  Attributes.get?_ofList_of_absent absent

/-- The element is no style and has no id. -/
def Element.IsFiller (element : Element) : Prop :=
  Ascii.sameName element.tag "style" = false ∧ element.Unnamed

namespace LayoutBox

theorem allowsSizers_isFiller : AllowsSizers Element.IsFiller where
  ratio style := by
    refine ⟨?_, Element.unnamed_ofPairs ?_ sizerTag⟩
    · simp only [Element.ofPairs]
      with_unfolding_all decide
    · simp only [List.forall_mem_cons]
      with_unfolding_all decide
  holder :=
    ⟨by with_unfolding_all decide, Element.unnamed_ofPairs (by with_unfolding_all decide) sizerTag⟩
  image source := by
    refine ⟨?_, Element.unnamed_ofPairs ?_ "img"⟩
    · simp only [Element.ofPairs]
      with_unfolding_all decide
    · simp only [List.forall_mem_cons]
      with_unfolding_all decide

section Sizers

variable {tree : Tree} {id : NodeId} {box : LayoutBox} {sizer : Sizer}

/-- What reserves the space is called a sizer. -/
theorem sizer?_tag (chosen : box.sizer? = some sizer) : sizer.holder.tag = sizerTag := by
  have lowered : Ascii.lower sizerTag = sizerTag := by with_unfolding_all decide
  obtain ⟨⟨width, height⟩, -, made⟩ := Option.bind_eq_some_iff.mp chosen
  cases layout : box.layout with
  | responsive | intrinsic =>
      simp only [layout, Option.some.injEq] at made
      subst made
      exact lowered
  | nodisplay | fixed | fixedHeight | container | fill | flexItem | fluid =>
      simp [layout] at made

theorem isTagged_of_isSizer (chosen : box.sizer? = some sizer) (isSizer : tree.IsSizer id sizer) :
    tree.isTagged id sizerTag = true := by
  have found : tree.element? id = some sizer.holder := by
    cases isSizer with
    | bare found => exact found
    | holding found => exact found
  rw [Tree.isTagged_of_element? found, sizer?_tag chosen]
  with_unfolding_all decide

end Sizers

/-- The ways in which a box can be applied. -/
inductive Applied (tree : Tree) (id : NodeId) (box : LayoutBox) : Tree → Prop where
  | silent : Applied tree id box tree
  | written : Applied tree id box (box.writeAttributes tree id)
  | sized {after : Tree} {front : NodeId}
      (fronts : (box.writeAttributes tree id).Fronts after id front)
      (isSizer : after.isTagged front sizerTag = true)
      (fresh : ∀ {other element}, (box.writeAttributes tree id).size ≤ other →
        after.element? other = some element → element.IsFiller) :
      Applied tree id box after

theorem applied {tree : Tree} {id : NodeId} (forest : tree.Forest) (inside : id < tree.size)
    (box : LayoutBox) : Applied tree id box (box.applyTo tree id) := by
  obtain ⟨links, size⟩ := Tree.writeAttributes_sameLinks tree id box
  have writtenForest := forest.congr links
  have writtenInside : id < (box.writeAttributes tree id).size :=
    Nat.lt_of_lt_of_eq inside size.symm
  have creates := createSizer?_spec writtenForest box
  unfold applyTo applyTo?
  dsimp only
  split
  next => exact .silent
  next =>
    cases chosen : box.sizer? with
    | none =>
        rw [chosen] at creates
        dsimp only at creates
        rw [creates]
        exact .written
    | some sizer =>
        rw [chosen] at creates
        obtain ⟨created, made, spec⟩ := creates
        have grown : Tree.Creates ⟨fun _ => False, fun _ => False⟩ Element.IsFiller
            (box.writeAttributes tree id) created :=
          createSizer?_creates allowsSizers_isFiller writtenForest (.refl writtenForest) made
        have brought := createSizer?_brings writtenForest made
        obtain ⟨after, done, brings, put⟩ :=
          brought.prepend? writtenForest writtenInside spec.parentless
        rw [made]
        dsimp only
        rw [done, Option.getD_some]
        refine .sized ⟨brings.extended, spec.isNew, ?_, ?_⟩ ?_ ?_
        · rw [put.children, if_pos rfl, grown.grows.children writtenInside not_false]
        · intro other old different
          rw [put.children, if_neg different, grown.grows.children old not_false]
        · rw [Tree.isTagged_congr (Tree.tag?_congr (put.kind? created.1))]
          exact isTagged_of_isSizer chosen spec.isSizer
        · intro other element isNew found
          rw [Tree.element?_congr (put.kind? other)] at found
          exact grown.grows.fresh isNew found

end LayoutBox

end FirstPaint
