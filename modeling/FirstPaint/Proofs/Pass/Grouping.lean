import FirstPaint.Pass.HeadOrder
import Mathlib.Data.List.Induction
import Mathlib.Data.List.Nodup
import Mathlib.Data.String.Basic

/-!
# What stays of a group

The sweep gives each child of the head a group, unless the child is blank text. Out of
the nodes of a group those stay that no later one displaces: in a group for a single
node every later node does so, in a group of extension scripts every later script for
the same extension, and in the other groups none (`HeadGroup.Displaces`). This
describes the members of the canonical order (`mem_canonicalOrder_iff`), and each of
them is listed once (`nodup_canonicalOrder`).

Extension scripts are kept in strictly ascending order of their names. A list in that
order holds one script for each name, which is why a script that is put in displaces
exactly the one with its name.
-/

set_option autoImplicit false

namespace FirstPaint

/-! ## Two members in their order -/

/-- One member stands before another in a longer list: either it did before the last
member was added, or the other one is the last. -/
theorem pair_sublist_concat {α : Type} {first second last : α} {front : List α} :
    [first, second].Sublist (front ++ [last]) ↔
      [first, second].Sublist front ∨ first ∈ front ∧ second = last := by
  constructor
  · intro sublist
    obtain ⟨left, right, split, inFront, inLast⟩ := List.sublist_append_iff.mp sublist
    rcases List.sublist_singleton.mp inLast with rfl | rfl
    · left
      rwa [split, List.append_nil]
    · right
      have parts : [first] ++ [second] = left ++ [last] := split
      obtain ⟨rfl, same⟩ := List.append_inj' parts rfl
      exact ⟨List.singleton_sublist.mp inFront, (List.singleton_inj.mp same)⟩
  · rintro (earlier | ⟨member, rfl⟩)
    · exact earlier.trans (List.sublist_append_left front [last])
    · exact (List.singleton_sublist.mpr member).append (List.Sublist.refl [second])

/-- Nothing stands behind the last member of a list without repetitions. -/
theorem not_pair_sublist_last {α : Type} {last later : α} {front : List α}
    (distinct : (front ++ [last]).Nodup) : ¬ [last, later].Sublist (front ++ [last]) := by
  intro sublist
  obtain ⟨-, -, apart⟩ := List.nodup_append.mp distinct
  have inFront : last ∈ front := by
    rcases pair_sublist_concat.mp sublist with earlier | ⟨member, -⟩
    · exact earlier.subset List.mem_cons_self
    · exact member
  exact apart last inFront last (List.mem_singleton_self last) rfl

/-! ## Scripts by name -/

/-- The names of the scripts ascend strictly. -/
def Ascending (nameOf : NodeId → String) (scripts : List NodeId) : Prop :=
  scripts.Pairwise fun first second => nameOf first < nameOf second

namespace Ascending

variable {nameOf : NodeId → String} {script id : NodeId} {kept : List NodeId}

theorem nodup (ascending : Ascending nameOf kept) : kept.Nodup := by
  refine List.Pairwise.imp ?_ ascending
  rintro first second below rfl
  exact lt_irrefl _ below

/-- A script that is put in takes the place of the one with its name. -/
theorem mem_insertByName_iff (ascending : Ascending nameOf kept) :
    id ∈ insertByName nameOf script kept ↔
      id = script ∨ id ∈ kept ∧ nameOf id ≠ nameOf script := by
  induction kept with
  | nil => simp [insertByName]
  | cons first rest ih =>
      obtain ⟨above, others⟩ := List.pairwise_cons.mp ascending
      unfold insertByName
      split
      next before =>
        -- All names in the list are greater.
        have different : id ∈ first :: rest → nameOf id ≠ nameOf script := by
          intro member
          rcases List.mem_cons.mp member with rfl | later
          · exact ne_of_gt before
          · exact ne_of_gt (before.trans (above id later))
        rw [List.mem_cons]
        exact or_congr_right ⟨fun member => ⟨member, different member⟩, And.left⟩
      next =>
        split
        next same =>
          have different : id ∈ rest → nameOf id ≠ nameOf script := by
            intro member
            rw [same]
            exact ne_of_gt (above id member)
          constructor
          · intro member
            rcases List.mem_cons.mp member with rfl | later
            · exact .inl rfl
            · exact .inr ⟨List.mem_cons_of_mem first later, different later⟩
          · rintro (rfl | ⟨member, other⟩)
            · exact List.mem_cons_self
            · rcases List.mem_cons.mp member with rfl | later
              · exact absurd same.symm other
              · exact List.mem_cons_of_mem script later
        next distinct =>
          rw [List.mem_cons, ih others, List.mem_cons]
          constructor
          · rintro (rfl | rfl | ⟨later, other⟩)
            · exact .inr ⟨.inl rfl, fun same => distinct same.symm⟩
            · exact .inl rfl
            · exact .inr ⟨.inr later, other⟩
          · rintro (rfl | ⟨rfl | later, other⟩)
            · exact .inr (.inl rfl)
            · exact .inl rfl
            · exact .inr (.inr ⟨later, other⟩)

theorem insertByName (ascending : Ascending nameOf kept) :
    Ascending nameOf (insertByName nameOf script kept) := by
  induction kept with
  | nil => exact List.pairwise_singleton _ _
  | cons first rest ih =>
      obtain ⟨above, others⟩ := List.pairwise_cons.mp ascending
      unfold FirstPaint.insertByName
      split
      next before =>
        refine List.pairwise_cons.mpr ⟨?_, ascending⟩
        intro other member
        rcases List.mem_cons.mp member with rfl | later
        · exact before
        · exact before.trans (above other later)
      next notBefore =>
        split
        next same =>
          refine List.pairwise_cons.mpr ⟨?_, others⟩
          intro other member
          rw [same]
          exact above other member
        next distinct =>
          refine List.pairwise_cons.mpr ⟨?_, ih others⟩
          intro other member
          rcases (mem_insertByName_iff others).mp member with rfl | ⟨later, -⟩
          · exact lt_of_le_of_ne (not_lt.mp notBefore) (Ne.symm distinct)
          · exact above other later

/-- A script whose name comes after all others is put at the end. -/
theorem insertByName_of_last (last : ∀ other ∈ kept, nameOf other < nameOf script) :
    FirstPaint.insertByName nameOf script kept = kept ++ [script] := by
  induction kept with
  | nil => rfl
  | cons first rest ih =>
      have before := last first List.mem_cons_self
      have others := ih fun other member => last other (List.mem_cons_of_mem first member)
      rw [FirstPaint.insertByName, if_neg (not_lt_of_gt before), if_neg (ne_of_gt before), others]
      rfl

end Ascending

/-- The scripts that stay out of a list, in the order of their names. -/
def lastByName (nameOf : NodeId → String) (scripts : List NodeId) : List NodeId :=
  scripts.foldl (fun kept script => insertByName nameOf script kept) []

section LastByName

variable {nameOf : NodeId → String} {script id : NodeId} {scripts : List NodeId}

theorem lastByName_concat :
    lastByName nameOf (scripts ++ [script]) =
      insertByName nameOf script (lastByName nameOf scripts) := by
  rw [lastByName, List.foldl_append]
  rfl

theorem ascending_lastByName (nameOf : NodeId → String) (scripts : List NodeId) :
    Ascending nameOf (lastByName nameOf scripts) := by
  induction scripts using List.reverseRecOn with
  | nil => exact List.Pairwise.nil
  | append_singleton front script ih =>
      rw [lastByName_concat]
      exact ih.insertByName

/-- The last script of each name stays. -/
theorem mem_lastByName_iff (distinct : scripts.Nodup) :
    id ∈ lastByName nameOf scripts ↔
      id ∈ scripts ∧ ∀ later, [id, later].Sublist scripts → nameOf id ≠ nameOf later := by
  induction scripts using List.reverseRecOn with
  | nil => simp [lastByName]
  | append_singleton front script ih =>
      obtain ⟨frontDistinct, -, -⟩ := List.nodup_append.mp distinct
      rw [lastByName_concat, (ascending_lastByName nameOf front).mem_insertByName_iff,
        ih frontDistinct, List.mem_append, List.mem_singleton]
      constructor
      · rintro (rfl | ⟨⟨member, free⟩, other⟩)
        · refine ⟨.inr rfl, fun later sublist => ?_⟩
          exact absurd sublist (not_pair_sublist_last distinct)
        · refine ⟨.inl member, fun later sublist => ?_⟩
          rcases pair_sublist_concat.mp sublist with earlier | ⟨-, rfl⟩
          · exact free later earlier
          · exact other
      · rintro ⟨member | rfl, free⟩
        · refine .inr ⟨⟨member, fun later sublist => ?_⟩, ?_⟩
          · exact free later (pair_sublist_concat.mpr (.inl sublist))
          · exact free script (pair_sublist_concat.mpr (.inr ⟨member, rfl⟩))
        · exact .inl rfl

/-- Scripts that are in order already stay as they are. -/
theorem lastByName_of_ascending (ascending : Ascending nameOf scripts) :
    lastByName nameOf scripts = scripts := by
  induction scripts using List.reverseRecOn with
  | nil => rfl
  | append_singleton front script ih =>
      obtain ⟨frontAscending, -, below⟩ := List.pairwise_append.mp ascending
      rw [lastByName_concat, ih frontAscending]
      refine Ascending.insertByName_of_last fun other member => ?_
      exact below other member script (List.mem_singleton_self script)

end LastByName

/-! ## What stays in a group -/

namespace HeadGroup

/-- The later of two nodes in the group takes the place of the earlier one. -/
def Displaces (group : HeadGroup) (tree : Tree) (earlier later : NodeId) : Prop :=
  group.isSingle = true ∨
    group.isByName = true ∧ nameOfExtension tree earlier = nameOfExtension tree later

variable {group : HeadGroup} {tree : Tree} {nodes : List NodeId} {id : NodeId}

theorem keep_single (single : group.isSingle = true) :
    group.keep tree nodes = nodes.getLast?.toList := by
  rw [keep, if_pos single]

theorem keep_byName (several : group.isSingle = false) (byName : group.isByName = true) :
    group.keep tree nodes = lastByName (nameOfExtension tree) nodes := by
  rw [keep, if_neg (by simp [several]), if_pos byName]
  rfl

theorem keep_all (several : group.isSingle = false) (anyName : group.isByName = false) :
    group.keep tree nodes = nodes := by
  rw [keep, if_neg (by simp [several]), if_neg (by simp [anyName])]

/-- A node stays unless a later one takes its place. -/
theorem mem_keep_iff (distinct : nodes.Nodup) :
    id ∈ group.keep tree nodes ↔
      id ∈ nodes ∧ ∀ later, [id, later].Sublist nodes → ¬ group.Displaces tree id later := by
  cases single : group.isSingle with
  | true =>
      rw [keep_single single, Option.mem_toList]
      rcases List.eq_nil_or_concat nodes with rfl | ⟨front, last, rfl⟩
      · simp
      · rw [List.concat_eq_append] at distinct ⊢
        rw [List.getLast?_concat, Option.some_inj, List.mem_append, List.mem_singleton]
        constructor
        · rintro rfl
          exact ⟨.inr rfl, fun later sublist => absurd sublist (not_pair_sublist_last distinct)⟩
        · rintro ⟨member | rfl, free⟩
          · exact absurd (.inl single) (free last (pair_sublist_concat.mpr (.inr ⟨member, rfl⟩)))
          · rfl
  | false =>
      cases byName : group.isByName with
      | true =>
          rw [keep_byName single byName, mem_lastByName_iff distinct]
          simp [Displaces, single, byName]
      | false =>
          rw [keep_all single byName]
          simp [Displaces, single, byName]

theorem nodup_keep (distinct : nodes.Nodup) : (group.keep tree nodes).Nodup := by
  cases single : group.isSingle with
  | true =>
      rw [keep_single single]
      cases nodes.getLast? with
      | none => exact List.nodup_nil
      | some last => exact List.nodup_singleton last
  | false =>
      cases byName : group.isByName with
      | true =>
          rw [keep_byName single byName]
          exact (ascending_lastByName _ nodes).nodup
      | false => rwa [keep_all single byName]

/-- Out of the nodes that stayed, all stay. -/
theorem keep_keep : group.keep tree (group.keep tree nodes) = group.keep tree nodes := by
  cases single : group.isSingle with
  | true =>
      simp only [keep_single single]
      cases nodes.getLast? with
      | none => rfl
      | some last => rfl
  | false =>
      cases byName : group.isByName with
      | true =>
          simp only [keep_byName single byName]
          exact lastByName_of_ascending (ascending_lastByName _ nodes)
      | false => simp only [keep_all single byName]

end HeadGroup

/-! ## The sweep -/

/-- The node is a text of nothing but blank characters. -/
def Tree.IsBlankText (tree : Tree) (id : NodeId) : Prop :=
  ∃ data, tree.text? id = some data ∧ data.toList.all Ascii.isBlank = true

section Sweep

variable {registry : ScriptRegistry} {tree : Tree} {passed : Bool} {nodes : List NodeId}
  {id : NodeId} {group : HeadGroup}

/-- Only blank text falls into no group. -/
theorem groupOf?_eq_none_iff : groupOf? registry tree passed id = none ↔ tree.IsBlankText id := by
  unfold groupOf? Tree.IsBlankText
  cases found : tree.element? id with
  | none =>
      cases tree.text? id with
      | none => simp
      | some data => simp
  | some element =>
      have noText : tree.text? id = none := by
        unfold Tree.element? at found
        unfold Tree.text?
        split at found
        next known => rw [known]
        next => exact absurd found (by simp)
      simp only [noText]
      constructor
      · intro none
        split at none <;> exact absurd none (by simp)
      · rintro ⟨data, same, -⟩
        exact absurd same (by simp)

/-- Each child falls into one group at most, and they come in their order. -/
theorem placements_sublist (registry : ScriptRegistry) (tree : Tree) (passed : Bool)
    (nodes : List NodeId) :
    ((placements registry tree passed nodes).map (·.node)).Sublist nodes := by
  induction nodes generalizing passed with
  | nil => exact List.Sublist.slnil
  | cons node rest ih =>
      unfold placements
      split
      next => exact (ih passed).cons node
      next group _ => exact (ih _).cons_cons node

theorem exists_mem_placements_iff :
    (∃ group, ⟨group, id⟩ ∈ placements registry tree passed nodes) ↔
      id ∈ nodes ∧ ¬ tree.IsBlankText id := by
  induction nodes generalizing passed with
  | nil => simp [placements]
  | cons node rest ih =>
      unfold placements
      split
      next blank =>
        rw [ih, List.mem_cons]
        have isBlank := groupOf?_eq_none_iff.mp blank
        constructor
        · rintro ⟨later, other⟩
          exact ⟨.inr later, other⟩
        · rintro ⟨rfl | later, other⟩
          · exact absurd isBlank other
          · exact ⟨later, other⟩
      next group found =>
        have notBlank : ¬ tree.IsBlankText node := by
          intro isBlank
          have none : groupOf? registry tree passed node = none :=
            groupOf?_eq_none_iff.mpr isBlank
          exact absurd (found.symm.trans none) (by simp)
        constructor
        · rintro ⟨other, member⟩
          rcases List.mem_cons.mp member with same | later
          · cases same
            exact ⟨List.mem_cons_self, notBlank⟩
          · obtain ⟨listed, free⟩ := ih.mp ⟨other, later⟩
            exact ⟨List.mem_cons_of_mem node listed, free⟩
        · rintro ⟨member, free⟩
          rcases List.mem_cons.mp member with rfl | later
          · exact ⟨group, List.mem_cons_self⟩
          · obtain ⟨other, listed⟩ := ih.mpr ⟨later, free⟩
            exact ⟨other, List.mem_cons_of_mem _ listed⟩

/-- Different groups have different nodes. -/
theorem group_eq_of_mem_placements (distinct : nodes.Nodup) {other : HeadGroup}
    (here : ⟨group, id⟩ ∈ placements registry tree passed nodes)
    (there : ⟨other, id⟩ ∈ placements registry tree passed nodes) : group = other := by
  have once := distinct.sublist (placements_sublist registry tree passed nodes)
  exact congrArg Placed.group (List.inj_on_of_nodup_map once here there rfl)

end Sweep

/-! ## The canonical order -/

/-- The nodes that fell into a group, in their order. -/
def nodesIn (group : HeadGroup) (placed : List Placed) : List NodeId :=
  (placed.filter (·.group == group)).map (·.node)

theorem mem_nodesIn_iff {group : HeadGroup} {placed : List Placed} {id : NodeId} :
    id ∈ nodesIn group placed ↔ ⟨group, id⟩ ∈ placed := by
  constructor
  · intro member
    obtain ⟨⟨other, node⟩, listed, rfl⟩ := List.mem_map.mp member
    obtain ⟨inPlaced, same⟩ := List.mem_filter.mp listed
    obtain rfl : other = group := by simpa using same
    exact inPlaced
  · intro member
    exact List.mem_map.mpr ⟨_, List.mem_filter.mpr ⟨member, by simp⟩, rfl⟩

theorem pair_sublist_nodesIn_iff {group : HeadGroup} {placed : List Placed} {id later : NodeId} :
    [id, later].Sublist (nodesIn group placed) ↔
      [⟨group, id⟩, ⟨group, later⟩].Sublist placed := by
  constructor
  · intro sublist
    obtain ⟨pair, filtered, same⟩ := List.sublist_map_iff.mp sublist
    obtain ⟨first, second, rfl⟩ : ∃ first second, pair = [first, second] := by
      refine List.length_eq_two.mp ?_
      rw [← List.length_map (f := Placed.node), ← same]
      rfl
    have inGroup : ∀ member ∈ [first, second], member = ⟨group, member.node⟩ := by
      intro member listed
      have known : member.group = group := by
        simpa using (List.mem_filter.mp (filtered.subset listed)).2
      rw [← known]
    obtain ⟨rfl, rfl⟩ : id = first.node ∧ later = second.node := by simpa using same
    rw [← inGroup first (by simp), ← inGroup second (by simp)]
    exact filtered.trans List.filter_sublist
  · intro sublist
    have filtered := (sublist.filter (·.group == group)).map (·.node)
    simpa [nodesIn] using filtered

section Order

variable {registry : ScriptRegistry} {tree : Tree} {nodes : List NodeId} {id : NodeId}

theorem canonicalOrder_eq (registry : ScriptRegistry) (tree : Tree) (nodes : List NodeId) :
    canonicalOrder registry tree nodes =
      HeadGroup.all.flatMap fun group =>
        group.keep tree (nodesIn group (placements registry tree false nodes)) :=
  rfl

theorem HeadGroup.mem_all (group : HeadGroup) : group ∈ HeadGroup.all := by
  cases group <;> decide

theorem nodup_nodesIn (distinct : nodes.Nodup) (group : HeadGroup) :
    (nodesIn group (placements registry tree false nodes)).Nodup := by
  have once := distinct.sublist (placements_sublist registry tree false nodes)
  exact once.sublist (List.filter_sublist.map _)

/-- A child is in the canonical order if it fell into a group and nothing that came
after it takes its place there. -/
theorem mem_canonicalOrder_iff (distinct : nodes.Nodup) :
    id ∈ canonicalOrder registry tree nodes ↔
      ∃ group, ⟨group, id⟩ ∈ placements registry tree false nodes ∧
        ∀ later, [⟨group, id⟩, ⟨group, later⟩].Sublist (placements registry tree false nodes) →
          ¬ group.Displaces tree id later := by
  rw [canonicalOrder_eq, List.mem_flatMap]
  refine exists_congr fun group => ?_
  rw [HeadGroup.mem_keep_iff (nodup_nodesIn distinct group), mem_nodesIn_iff]
  simp only [HeadGroup.mem_all, true_and, pair_sublist_nodesIn_iff]

theorem nodup_canonicalOrder (distinct : nodes.Nodup) :
    (canonicalOrder registry tree nodes).Nodup := by
  rw [canonicalOrder_eq, List.nodup_flatMap]
  refine ⟨fun group _ => HeadGroup.nodup_keep (nodup_nodesIn distinct group), ?_⟩
  have different : HeadGroup.all.Pairwise (· ≠ ·) := by decide
  refine different.imp fun {first second} apart id here there => apart ?_
  have inFirst := mem_nodesIn_iff.mp
    ((HeadGroup.mem_keep_iff (nodup_nodesIn distinct first)).mp here).1
  have inSecond := mem_nodesIn_iff.mp
    ((HeadGroup.mem_keep_iff (nodup_nodesIn distinct second)).mp there).1
  exact group_eq_of_mem_placements distinct inFirst inSecond

end Order

end FirstPaint
