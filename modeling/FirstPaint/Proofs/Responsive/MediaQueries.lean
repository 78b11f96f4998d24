import FirstPaint.Proofs.Responsive.SizeListText
import FirstPaint.Proofs.Responsive.StyleRules

/-!
# Where an element is hidden

The rule for a media attribute is to hide its element exactly where the attribute does not match.
It is written with a negation in front of the attribute, and the negation reaches as far as the
first comma. This module reads the lists of queries on both sides, under an arbitrary assignment
of truth values to the queries that are not made of others (`MediaQuery.holds`).

The rule is right as long as no query behind the first one matches, and wrong wherever one does
(`hidden_where_unmatched_iff`). So it is right under every assignment exactly if there is only one
query: a query behind a comma can be made true by an assignment, whatever it is made of
(`MediaQuery.exists_holds`).
-/

set_option autoImplicit false

namespace FirstPaint

/-! ## Queries -/

/-- A media query. -/
inductive MediaQuery where
  /-- A query that is not made of another one, as it is written. -/
  | plain (text : List Char)
  /-- The opposite of a query. -/
  | negated (query : MediaQuery)
  /-- A query for all media types. -/
  | forAll (query : MediaQuery)
deriving DecidableEq, Repr

/-- What stands behind a keyword. White space may stand in front of the keyword, and has to stand
behind it. -/
def behindKeyword? (keyword : List Char) (text : List Char) : Option (List Char) :=
  let start := text.dropWhile Ascii.isWhitespace
  if (start.take keyword.length).map Char.toLower = keyword then
    match start.drop keyword.length with
    | [] => none
    | separator :: rest => if Ascii.isWhitespace separator then some rest else none
  else none

theorem length_lt_of_behindKeyword? {keyword text rest : List Char}
    (behind : behindKeyword? keyword text = some rest) : rest.length < text.length := by
  have shorter := (List.dropWhile_suffix (l := text) Ascii.isWhitespace).length_le
  unfold behindKeyword? at behind
  dsimp only at behind
  split at behind
  next =>
    split at behind
    next => exact absurd behind (by simp)
    next separator more split =>
      have length := congrArg List.length split
      rw [List.length_drop, List.length_cons] at length
      split at behind
      next =>
        cases behind
        omega
      next => exact absurd behind (by simp)
  next => exact absurd behind (by simp)

namespace MediaQuery

/-- Reads a query. -/
def read (text : List Char) : MediaQuery :=
  match _isNot : behindKeyword? "not".toList text with
  | some rest => .negated (read rest)
  | none =>
    match _isAll : behindKeyword? "all".toList text with
    | some more =>
      match _isAnd : behindKeyword? "and".toList more with
      | some rest => .forAll (read rest)
      | none => .plain (Ascii.trim Ascii.isWhitespace text)
    | none => .plain (Ascii.trim Ascii.isWhitespace text)
termination_by text.length
decreasing_by
  · exact length_lt_of_behindKeyword? _isNot
  · exact Nat.lt_trans (length_lt_of_behindKeyword? _isAnd) (length_lt_of_behindKeyword? _isAll)

theorem read_not (text : List Char) : read ("not ".toList ++ text) = .negated (read text) := by
  have behind : behindKeyword? "not".toList ("not ".toList ++ text) = some text := rfl
  rw [MediaQuery.read]
  split
  next rest found =>
    cases behind.symm.trans found
    rfl
  next none => exact absurd (behind.symm.trans none) (by simp)

theorem read_forAll (text : List Char) :
    read ("all and ".toList ++ text) = .forAll (read text) := by
  have noNegation : behindKeyword? "not".toList ("all and ".toList ++ text) = none := rfl
  have behindAll : behindKeyword? "all".toList ("all and ".toList ++ text) =
      some ("and ".toList ++ text) := rfl
  have behindAnd : behindKeyword? "and".toList ("and ".toList ++ text) = some text := rfl
  rw [MediaQuery.read]
  grind

/-- A query is read once for all: behind its keywords, or as it is. -/
example : read " NOT all  and\t(color) ".toList = .negated (.forAll (.plain "(color)".toList)) := by
  with_unfolding_all decide

/-- Whether a query matches, given which of the queries that are not made of others do. -/
def holds (assignment : List Char → Bool) : MediaQuery → Bool
  | plain text => assignment text
  | negated query => !query.holds assignment
  | forAll query => query.holds assignment

/-- Every query can be made to match. -/
theorem exists_holds (query : MediaQuery) (value : Bool) :
    ∃ assignment, query.holds assignment = value := by
  induction query generalizing value with
  | plain text => exact ⟨fun _ => value, rfl⟩
  | negated query ih =>
      obtain ⟨assignment, same⟩ := ih (!value)
      exact ⟨assignment, by rw [holds, same, Bool.not_not]⟩
  | forAll query ih => exact ih value

/-- Reads the queries of a list, which commas separate. -/
def readAll (text : List Char) : List MediaQuery := (text.splitOn ',').map read

/-- Whether a list of queries matches: at least one of them does. -/
def anyHolds (assignment : List Char → Bool) (text : List Char) : Bool :=
  (readAll text).any (·.holds assignment)

/-! ## Lists of queries -/

section Lists

variable {front text first : List Char} {later : List (List Char)} {separator : Char}

/-- What is put in front of a list belongs to its first item. -/
theorem splitOn_append_of_not_mem (free : separator ∉ front)
    (split : text.splitOn separator = first :: later) :
    (front ++ text).splitOn separator = (front ++ first) :: later := by
  induction front with
  | nil => exact split
  | cons character rest ih =>
      rw [List.mem_cons, not_or] at free
      have apart : (character == separator) = false := beq_eq_false_iff_ne.mpr (Ne.symm free.1)
      have others := ih free.2
      rw [List.splitOn] at others ⊢
      rw [List.cons_append, List.splitOnP_cons_eq_if_modifyHead, apart, others]
      rfl

/-- A list has one item exactly if nothing separates it. -/
theorem eq_nil_iff_of_splitOn (split : text.splitOn separator = first :: later) :
    later = [] ↔ separator ∉ text := by
  constructor
  · rintro rfl
    have whole : [separator].intercalate (text.splitOn separator) = text :=
      List.intercalate_splitOn separator
    have inFirst : separator ∉ first :=
      SizeList.not_mem_of_mem_splitOn (split ▸ List.mem_cons_self)
    rw [split, List.intercalate_singleton] at whole
    rwa [← whole]
  · intro free
    rw [List.splitOn_eq_singleton free] at split
    exact (List.cons.inj split).2.symm

end Lists

end MediaQuery

/-! ## The rule of an attribute -/

namespace ResponsiveStyle

variable {value : String} {front text : List Char} {first : MediaQuery} {later : List MediaQuery}

/-- The query of a value with content is the content, with a media type if it has none. -/
theorem exists_ofMedia (content : SizeList.trim value.toList ≠ []) :
    ∃ front, (front = [] ∨ front = "all and ".toList) ∧
      ofMedia value.toList = .hiddenOutside (front ++ SizeList.trim value.toList) := by
  unfold ofMedia
  split
  next none => exact absurd none content
  next rest bare => exact ⟨_, .inr rfl, by rw [bare]⟩
  next => exact ⟨_, .inl rfl, rfl⟩

theorem rules_hiddenOutside (query : List Char) (id : String) :
    (hiddenOutside query).rules id = StyleRule.text
      ⟨some ("not ".toList ++ query), elementSelector id, "display:none".toList⟩ := by
  rw [rules_eq_flatMap, styleRules, List.flatMap_singleton]

theorem anyHolds_iff (split : MediaQuery.readAll text = first :: later)
    (assignment : List Char → Bool) : MediaQuery.anyHolds assignment text = true ↔
      first.holds assignment = true ∨ ∃ query ∈ later, query.holds assignment = true := by
  rw [MediaQuery.anyHolds, split, List.any_cons, Bool.or_eq_true, List.any_eq_true]

/-- The negation reaches the first query alone. -/
theorem anyHolds_not_iff (isFront : front = [] ∨ front = "all and ".toList)
    (split : MediaQuery.readAll text = first :: later) (assignment : List Char → Bool) :
    MediaQuery.anyHolds assignment ("not ".toList ++ (front ++ text)) = true ↔
      first.holds assignment = false ∨ ∃ query ∈ later, query.holds assignment = true := by
  obtain ⟨start, others, texts, rfl, rfl⟩ := List.map_eq_cons_iff.mp split
  have noComma : ',' ∉ "not ".toList ++ front := by
    rcases isFront with rfl | rfl <;> decide
  have negated : (MediaQuery.read ("not ".toList ++ front ++ start)).holds assignment =
      !(MediaQuery.read start).holds assignment := by
    rw [List.append_assoc, MediaQuery.read_not]
    rcases isFront with rfl | rfl
    · rfl
    · rw [MediaQuery.read_forAll]
      rfl
  have split : MediaQuery.readAll ("not ".toList ++ front ++ text) =
      MediaQuery.read ("not ".toList ++ front ++ start) :: others.map MediaQuery.read := by
    rw [MediaQuery.readAll, MediaQuery.splitOn_append_of_not_mem noComma texts, List.map_cons]
  rw [← List.append_assoc, anyHolds_iff split, negated, Bool.not_eq_true']

/-- **An element is hidden where its media attribute does not match**, as long as no query behind
the first one matches: the rule is written with a negation in front of the whole list, and where
a query behind a comma matches, the rule and the attribute both do. So the rule is right under
every assignment exactly if there is no comma. -/
theorem hidden_where_unmatched_iff (value : String) (images : Bool)
    (content : SizeList.trim value.toList ≠ []) :
    ∃ query first later,
      read .media value images = .ok (.hiddenOutside query) ∧
      (∀ id, (ResponsiveStyle.hiddenOutside query).rules id = StyleRule.text
        ⟨some ("not ".toList ++ query), elementSelector id, "display:none".toList⟩) ∧
      MediaQuery.readAll (SizeList.trim value.toList) = first :: later ∧
      let hidden (assignment : List Char → Bool) : Prop :=
        MediaQuery.anyHolds assignment ("not ".toList ++ query) = true
      let shown (assignment : List Char → Bool) : Prop :=
        MediaQuery.anyHolds assignment (SizeList.trim value.toList) = true
      (∀ assignment, hidden assignment ↔
        first.holds assignment = false ∨ ∃ query ∈ later, query.holds assignment = true) ∧
      (∀ assignment, (hidden assignment ↔ ¬ shown assignment) ↔
        ∀ query ∈ later, query.holds assignment = false) ∧
      ((∀ assignment, hidden assignment ↔ ¬ shown assignment) ↔
        ',' ∉ SizeList.trim value.toList) := by
  obtain ⟨front, isFront, isQuery⟩ := exists_ofMedia content
  obtain ⟨start, others, texts⟩ := List.exists_cons_of_ne_nil
    (List.splitOn_ne_nil ',' (SizeList.trim value.toList))
  have split : MediaQuery.readAll (SizeList.trim value.toList) =
      MediaQuery.read start :: others.map MediaQuery.read := by
    rw [MediaQuery.readAll, texts, List.map_cons]
  refine ⟨_, _, _, congrArg Except.ok isQuery, rules_hiddenOutside _, split, ?_⟩
  intro hidden shown
  have isHidden := anyHolds_not_iff isFront split
  have agree : ∀ assignment, (hidden assignment ↔ ¬ shown assignment) ↔
      ∀ query ∈ others.map MediaQuery.read, query.holds assignment = false := by
    intro assignment
    have none : (¬ ∃ query ∈ others.map MediaQuery.read, query.holds assignment = true) ↔
        ∀ query ∈ others.map MediaQuery.read, query.holds assignment = false := by
      simp
    rw [← none, show hidden assignment ↔ _ from isHidden assignment,
      show shown assignment ↔ _ from anyHolds_iff split assignment]
    cases (MediaQuery.read start).holds assignment <;> simp
  refine ⟨isHidden, agree, ?_⟩
  rw [← MediaQuery.eq_nil_iff_of_splitOn texts]
  constructor
  · intro always
    by_contra several
    obtain ⟨second, more, rfl⟩ := List.exists_cons_of_ne_nil several
    obtain ⟨assignment, matching⟩ := (MediaQuery.read second).exists_holds true
    have fails := (agree assignment).mp (always assignment) (.read second) (by simp)
    exact absurd (matching.symm.trans fails) (by simp)
  · rintro rfl assignment
    exact (agree assignment).mpr (by simp)

/-- Of a list of two queries the second stays as it is; a single query is negated. -/
theorem hidden_where_unmatched_iff_twoQueries :
    let several := " (color), not print ;"
    let single := "NOT print"
    (∃ query first, read .media several false = .ok (.hiddenOutside query) ∧
      MediaQuery.readAll (SizeList.trim several.toList) =
        [first, .negated (.plain "print".toList)] ∧
      MediaQuery.anyHolds (fun _ => false) ("not ".toList ++ query) = true ∧
      ¬ ∀ assignment, MediaQuery.anyHolds assignment ("not ".toList ++ query) = true ↔
        ¬ MediaQuery.anyHolds assignment (SizeList.trim several.toList) = true) ∧
    ∃ query, read .media single false = .ok (.hiddenOutside query) ∧
      ∀ assignment, MediaQuery.anyHolds assignment ("not ".toList ++ query) = true ↔
        ¬ MediaQuery.anyHolds assignment (SizeList.trim single.toList) = true := by
  intro several single
  obtain ⟨query, first, later, isRead, -, split, isHidden, -, always⟩ :=
    hidden_where_unmatched_iff several false (by decide +kernel)
  obtain ⟨other, _, _, otherRead, -, -, -, -, otherAlways⟩ :=
    hidden_where_unmatched_iff single false (by decide +kernel)
  have items : MediaQuery.readAll (SizeList.trim several.toList) =
      [.plain "(color)".toList, .negated (.plain "print".toList)] := by decide +kernel
  obtain ⟨rfl, rfl⟩ := List.cons.inj (items.symm.trans split)
  exact ⟨⟨query, _, isRead, split, (isHidden _).mpr (.inl rfl),
    fun right => always.mp right (by decide +kernel)⟩,
    other, otherRead, otherAlways.mpr (by decide +kernel)⟩

/-- Where the attribute matches, the element is hidden all the same. -/
theorem hidden_where_matched :
    let value := "print, print"
    let print (text : List Char) : Bool := text == "print".toList
    ∃ query, read .media value false = .ok (.hiddenOutside query) ∧
      (ResponsiveStyle.hiddenOutside query).rules "a" =
        "@media not print, print\x7b#a\x7bdisplay:none;\x7d\x7d".toList ∧
      MediaQuery.anyHolds print (SizeList.trim value.toList) = true ∧
      MediaQuery.anyHolds print ("not ".toList ++ query) = true :=
  ⟨"print, print".toList, by decide +kernel, by decide +kernel, by decide +kernel,
    by decide +kernel⟩

end ResponsiveStyle

end FirstPaint
