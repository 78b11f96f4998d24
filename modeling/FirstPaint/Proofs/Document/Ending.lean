import FirstPaint.Proofs.Document.Attributes
import FirstPaint.Proofs.Document.Extending

/-!
# The end of a node

Text comes to the end of a node again and again, and other edits in between leave its
children alone. Compared with a first tree there are only three ways in which the node can
look (`Ending`): it is as it was, its last text is longer, or one text has come behind its
children. A second text never comes, since the first one takes what is added later
(`Ending.textAdded`). The added texts, one after another, are what the end has grown by.

In front of the children a new element may come. What is different then is said by
`Fronts`, and nothing else is.
-/

set_option autoImplicit false

namespace FirstPaint

namespace Tree

/-! ## What text at the end changes -/

namespace TextAdded

variable {before after : Tree} {id other : NodeId} {more : String}
  (added : TextAdded before after id more)
include added

theorem size_le : before.size ≤ after.size := by
  cases added with
  | lengthened _ lengthened => exact Nat.le_of_eq lengthened.size.symm
  | inserted _ inserted =>
      rw [inserted.size]
      exact Nat.le_succ _

theorem parent?_old (inside : other < before.size) :
    after.parent? other = before.parent? other := by
  cases added with
  | lengthened _ lengthened => exact lengthened.parent? other
  | inserted _ inserted => rw [inserted.parent?, if_neg (Nat.ne_of_lt inside)]

/-- Text comes and grows, elements do not. -/
theorem element?_eq (other : NodeId) : after.element? other = before.element? other := by
  cases added with
  | @lengthened last _ lengthened =>
      by_cases same : other = last
      · obtain ⟨data, found, grown⟩ := lengthened.text?
        rw [same, element?, element?, text?_eq_some_iff.mp found, text?_eq_some_iff.mp grown]
      · exact element?_congr (lengthened.kind? other same)
  | inserted _ inserted =>
      by_cases same : other = before.size
      · rw [same, element?, element?, inserted.kind?_new, kind?_of_size_le (Nat.le_refl _)]
      · refine element?_congr ?_
        rw [inserted.kind?, if_neg same]

theorem tag?_eq (other : NodeId) : after.tag? other = before.tag? other := by
  rw [tag?, tag?, added.element?_eq]

theorem children_of_ne (different : other ≠ id) :
    after.children other = before.children other := by
  cases added with
  | lengthened _ lengthened => exact lengthened.children other
  | inserted _ inserted => rw [inserted.children, if_neg different]

/-- The last child is all that can have changed, and only if it is a text. -/
theorem kind?_old (inside : other < before.size)
    (apart : before.lastChild? id = some other → before.text? other = none) :
    after.kind? other = before.kind? other := by
  cases added with
  | @lengthened last isLast lengthened =>
      refine lengthened.kind? other ?_
      rintro rfl
      obtain ⟨data, found, -⟩ := lengthened.text?
      exact absurd ((apart isLast).symm.trans found) (by simp)
  | inserted _ inserted => exact inserted.kind?_old inside

end TextAdded

/-! ## Endings -/

/-- What has come to the end of a node since a first tree, given the children that are left
of those it had. -/
inductive Ending (first tree : Tree) (id : NodeId) (left : List NodeId) : String → Prop where
  /-- Nothing has come. -/
  | kept (listed : tree.children id = left)
      (same : ∀ last, first.lastChild? id = some last → tree.text? last = first.text? last) :
      Ending first tree id left ""
  /-- The last text is longer. -/
  | grown {last : NodeId} {data css : String} (isLast : first.lastChild? id = some last)
      (before : first.text? last = some data) (after : tree.text? last = some (data ++ css))
      (listed : tree.children id = left) : Ending first tree id left css
  /-- There was no text at the end, and a new one has come. -/
  | added {text : NodeId} {css : String}
      (noText : ∀ last, first.lastChild? id = some last → first.text? last = none)
      (isNew : first.size ≤ text) (listed : tree.children id = left ++ [text])
      (after : tree.text? text = some css) : Ending first tree id left css

namespace Ending

variable {first tree after : Tree} {id : NodeId} {css more : String}

theorem refl (first : Tree) (id : NodeId) : Ending first first id (first.children id) "" :=
  .kept rfl fun _ _ => rfl

theorem lastChild?_of_listed {before after : Tree}
    (listed : after.children id = before.children id) :
    after.lastChild? id = before.lastChild? id := by
  rw [lastChild?, lastChild?, listed]

/-- Edits that keep the texts and take old children away at most. -/
theorem thin {left : List NodeId} (ending : Ending first tree id left css) (start : first.Forest)
    (size_le : first.size ≤ tree.size)
    (texts : ∀ {id}, id < tree.size → after.text? id = tree.text? id) (keep : NodeId → Bool)
    (listed : after.children id = (tree.children id).filter keep)
    (stays : ∀ {id}, first.size ≤ id → keep id = true) :
    Ending first after id (left.filter keep) css := by
  have lasts : ∀ {last}, first.lastChild? id = some last → after.text? last = tree.text? last :=
    fun isLast =>
      texts (Nat.lt_of_lt_of_le (start.child_lt (List.mem_of_getLast? isLast)) size_le)
  cases ending with
  | kept same last =>
      rw [same] at listed
      exact .kept listed fun other isLast => (lasts isLast).trans (last other isLast)
  | grown isLast before later same =>
      rw [same] at listed
      exact .grown isLast before ((lasts isLast).trans later) listed
  | @added text _ noText isNew same later =>
      rw [same, List.filter_append, List.filter_cons_of_pos (stays isNew), List.filter_nil]
        at listed
      have inside : text < tree.size := by
        exact lt_size_of_kind? (text?_eq_some_iff.mp later)
      exact .added noText isNew listed ((texts inside).trans later)

/-- Edits that keep the texts and the children keep the end. -/
theorem congr {left : List NodeId} (ending : Ending first tree id left css) (start : first.Forest)
    (size_le : first.size ≤ tree.size)
    (texts : ∀ {id}, id < tree.size → after.text? id = tree.text? id)
    (listed : after.children id = tree.children id) : Ending first after id left css := by
  have thinned := ending.thin start size_le texts (fun _ => true)
    (listed.trans (List.filter_true _).symm) fun _ => rfl
  rwa [List.filter_true] at thinned

/-- What has come since a tree has come since an earlier one that ends in the same way. -/
theorem since {earlier : Tree} {left : List NodeId} (ending : Ending first tree id left css)
    (size_le : earlier.size ≤ first.size) (lasts : first.lastChild? id = earlier.lastChild? id)
    (texts : ∀ id, first.text? id = earlier.text? id) : Ending earlier tree id left css := by
  cases ending with
  | kept listed same =>
      refine .kept listed fun last isLast => ?_
      rw [same last (lasts.trans isLast), texts]
  | grown isLast before after listed =>
      exact .grown (lasts.symm.trans isLast) ((texts _).symm.trans before) after listed
  | added noText isNew listed after =>
      refine .added (fun last isLast => ?_) (Nat.le_trans size_le isNew) listed after
      exact (texts last).symm.trans (noText last (lasts.trans isLast))

/-- **Text comes to the end.** A text that is there takes it. -/
theorem textAdded (ending : Ending first tree id (first.children id) css)
    (size_le : first.size ≤ tree.size) (added : TextAdded tree after id more) :
    Ending first after id (first.children id) (css ++ more) := by
  cases added with
  | @lengthened last isLast lengthened =>
      obtain ⟨data, found, grown⟩ := lengthened.text?
      have listed := lengthened.children id
      cases ending with
      | kept same lastSame =>
          rw [lastChild?_of_listed same] at isLast
          rw [String.empty_append]
          exact .grown isLast ((lastSame last isLast).symm.trans found) grown (listed.trans same)
      | @grown other earlier _ firstLast before later same =>
          rw [lastChild?_of_listed same, firstLast] at isLast
          cases isLast
          rw [later] at found
          cases found
          rw [String.append_assoc] at grown
          exact .grown firstLast before grown (listed.trans same)
      | @added text _ noText isNew same later =>
          have isText : tree.lastChild? id = some text := by
            rw [lastChild?, same, List.getLast?_append_of_ne_nil _ (by simp)]
            rfl
          rw [isText] at isLast
          cases isLast
          rw [later] at found
          cases found
          exact .added noText isNew (listed.trans same) grown
  | inserted noText inserted =>
      have listed : after.children id = tree.children id ++ [tree.size] := by
        rw [inserted.children, if_pos rfl]
      have isText : after.text? tree.size = some more :=
        text?_eq_some_iff.mpr inserted.kind?_new
      cases ending with
      | kept same lastSame =>
          rw [same] at listed
          rw [String.empty_append]
          refine .added (fun last isLast => ?_) size_le listed isText
          rw [← lastSame last isLast]
          exact noText last ((lastChild?_of_listed same).trans isLast)
      | @grown last _ _ firstLast _ later same =>
          -- A text at the end would have taken the addition.
          have none := noText last ((lastChild?_of_listed same).trans firstLast)
          exact absurd (none.symm.trans later) (by simp)
      | @added text _ _ _ same later =>
          have none := noText text (by
            rw [lastChild?, same, List.getLast?_append_of_ne_nil _ (by simp)]
            rfl)
          exact absurd (none.symm.trans later) (by simp)

/-- The text at the end is one of the first tree, or it is new. -/
theorem last_of_text? (ending : Ending first tree id (first.children id) css)
    {last : NodeId} {data : String} (isLast : tree.lastChild? id = some last)
    (isText : tree.text? last = some data) :
    first.size ≤ last ∨
      first.lastChild? id = some last ∧ (first.text? last).isSome = true := by
  cases ending with
  | kept same lastSame =>
      rw [lastChild?_of_listed same] at isLast
      refine .inr ⟨isLast, ?_⟩
      rw [← lastSame last isLast, isText]
      rfl
  | grown firstLast before _ same =>
      rw [lastChild?_of_listed same, firstLast] at isLast
      cases isLast
      exact .inr ⟨firstLast, by rw [before]; rfl⟩
  | @added text _ _ isNew same =>
      rw [lastChild?, same, List.getLast?_append_of_ne_nil _ (by simp)] at isLast
      cases isLast
      exact .inl isNew

end Ending

/-! ## A new element in front -/

/-- A new element, with what is in it, has come in front of the children of a node. -/
structure Fronts (before after : Tree) (parent front : NodeId) : Prop where
  extended : Extended before after
  isNew : before.size ≤ front
  listed : after.children parent = front :: before.children parent
  children : ∀ {id}, id < before.size → id ≠ parent → after.children id = before.children id

/-- A new node comes in front, with nothing in it. -/
theorem Forest.fronts_create {tree : Tree} {parent : NodeId} (forest : tree.Forest)
    (inside : parent < tree.size) (kind : NodeKind) :
    ∃ after, (tree.create kind).2.prepend parent tree.size = after ∧
      Fronts tree after parent tree.size ∧ after.children tree.size = [] ∧
      ∀ id, after.kind? id = if id = tree.size then some kind else tree.kind? id := by
  have created := forest.congr (SameLinks.create tree kind)
  have empty : tree.children tree.size = [] := children_of_size_le (Nat.le_refl _)
  have parentless : (tree.create kind).2.parent? tree.size = none := by
    rw [parent?_create]
    exact parent?_of_size_le (Nat.le_refl _)
  have may : (tree.create kind).2.mayPlace parent tree.size = true := by
    refine created.mayPlace_of_childless (Nat.ne_of_lt inside) ?_
    rw [children_create, empty]
  obtain ⟨after, done, put⟩ := created.prepend?_spec (lt_size_create_of_lt kind inside)
    (lt_size_create kind) may parentless
  have listed : ∀ {id}, id ≠ parent → after.children id = tree.children id := by
    intro id different
    rw [put.children, if_neg different, children_create]
  refine ⟨after, ?_, ⟨(Extended.refl forest).create kind |>.putFirst (Nat.le_refl _) put,
    Nat.le_refl _, ?_, fun _ => listed⟩, ?_, fun id => ?_⟩
  · rw [prepend, done, Option.getD_some]
  · rw [put.children, if_pos rfl, children_create]
  · rw [listed (Nat.ne_of_gt inside), empty]
  · rw [put.kind?, kind?_create]

end Tree

end FirstPaint
