import FirstPaint.Proofs.Json.Members
import FirstPaint.Proofs.Json.Records

/-!
# Settings that are written and read

Settings are written in one way and read in many. Each part of the written form is one that the
reader of that part takes, so the written form is read as the settings (`readJson_toJson`) as
long as the limit has at most 64 bits; and every limit that has been read has
(`fits_of_readJson`), so settings that were accepted can be written and are accepted again.

What settings are refused for is said by `Judged`: for the first pass that stands in the list
before, and only then for a limit of zero.
-/

set_option autoImplicit false

namespace FirstPaint

open Json (Takes Yields)

/-! ## Judging -/

/-- The first pass that stands in the list before, if there is one. -/
inductive FirstRepeated (passes : List PassKind) : Option PassKind → Prop where
  | none (distinct : passes.Nodup) : FirstRepeated passes none
  | some {earlier later : List PassKind} {kind : PassKind}
      (split : passes = earlier ++ kind :: later) (distinct : earlier.Nodup)
      (again : kind ∈ earlier) : FirstRepeated passes (some kind)

namespace Settings

theorem firstRepeated?_spec {earlier : List PassKind} (distinct : earlier.Nodup)
    (passes : List PassKind) :
    FirstRepeated (earlier ++ passes) (firstRepeated? earlier passes) := by
  induction passes generalizing earlier with
  | nil => exact .none ((List.append_nil earlier).symm ▸ distinct)
  | cons kind later ih =>
      rw [firstRepeated?]
      split
      next again => exact .some rfl distinct again
      next new =>
        have more : (earlier ++ [kind]).Nodup := by
          refine List.nodup_append.mpr ⟨distinct, by simp, fun other member last isLast same => ?_⟩
          rw [same, List.mem_singleton.mp isLast] at member
          exact new member
        have spec := ih more
        rwa [List.append_assoc, List.singleton_append] at spec

/-- What becomes of settings when they are judged. -/
inductive Judged (settings : Settings) : Except SettingsError Settings → Prop where
  | accepted (distinct : settings.passes.Nodup) (positive : 0 < settings.styleLimit) :
      Judged settings (.ok settings)
  | repeatedPass {earlier later : List PassKind} {kind : PassKind}
      (split : settings.passes = earlier ++ kind :: later) (distinct : earlier.Nodup)
      (again : kind ∈ earlier) : Judged settings (.error (.repeatedPass kind))
  | noStyleBudget (distinct : settings.passes.Nodup) (empty : settings.styleLimit = 0) :
      Judged settings (.error .noStyleBudget)

/-- The settings, or what is wrong with them. -/
def verdict (settings : Settings) : Except SettingsError Settings :=
  match settings.fault? with
  | some error => .error error
  | none => .ok settings

theorem judged_verdict (settings : Settings) : Judged settings settings.verdict := by
  have spec := firstRepeated?_spec List.nodup_nil settings.passes
  rw [List.nil_append] at spec
  unfold verdict fault?
  generalize firstRepeated? [] settings.passes = repeated? at spec
  cases spec with
  | none distinct =>
      by_cases empty : settings.styleLimit = 0
      · simp only [empty, if_true]
        exact .noStyleBudget distinct empty
      · simp only [empty, if_false]
        exact .accepted distinct (Nat.pos_of_ne_zero empty)
  | some split distinct again => exact .repeatedPass split distinct again

/-! ## Reading what is written -/

end Settings

theorem PassKind.takes_read (kind : PassKind) :
    Takes PassKind.read (Json.quote kind.name) kind := by
  intro rest
  have named : ofReadName kind.name = .ok kind := by cases kind <;> rfl
  have solid : Json.skipBlanks ('"' :: (Json.quoteTail kind.name ++ rest)) =
      '"' :: (Json.quoteTail kind.name ++ rest) := rfl
  rw [Json.quote_append, PassKind.read, solid]
  simp only [Json.takes_quoteTail kind.name rest, bind, Except.bind, named]
  rfl

namespace Settings

theorem passesField_read (settings : Settings) (passes : List PassKind) (rest : List Char) :
    passesField.read settings
        ('[' :: (Json.commaSeparated (passes.map fun kind => Json.quote kind.name) ++
          ']' :: rest)) =
      .ok ({ settings with passes }, rest) := by
  have read : readPasses ('[' :: (Json.commaSeparated (passes.map fun kind =>
      Json.quote kind.name) ++ ']' :: rest)) = .ok (passes, rest) :=
    Json.readOptionalMembers_commaSeparated Json.begins_quote PassKind.takes_read passes rest
  simp only [passesField, read, bind, Except.bind]
  rfl

theorem renderingField_read (settings : Settings) {limit : Nat}
    (fits : limit ≤ Json.greatestWhole) (rest : List Char) :
    renderingField.read settings
        ('{' :: (label limitName ++ (Nat.toDigits 10 limit ++ '}' :: rest))) =
      .ok ({ settings with styleLimit := limit }, rest) := by
  have member : Json.readField [limitField] [] ({} : Settings).styleLimit
      (label limitName ++ (Nat.toDigits 10 limit ++ '}' :: rest)) =
      .ok ((limitName, limit), '}' :: rest) :=
    Json.readField_label limitField rfl List.not_mem_nil
      (Json.readWhole_toDigits fits rest)
  have read : Json.readRecord [limitField] ({} : Settings).styleLimit
      ('{' :: (label limitName ++ (Nat.toDigits 10 limit ++ '}' :: rest))) = .ok (limit, rest) :=
    Json.readNamedFields_last member _
  simp only [renderingField, read, bind, Except.bind]
  rfl

/-- Settings are read from their written form. -/
theorem readJson_toJson {settings : Settings}
    (fits : settings.styleLimit ≤ Json.greatestWhole) : readJson settings.toJson = .ok settings := by
  have written : settings.toJson = '{' :: (label passesName ++
      ('[' :: (Json.commaSeparated (settings.passes.map fun kind => Json.quote kind.name) ++
        ']' :: ',' :: (label renderingName ++
          ('{' :: (label limitName ++ (Nat.toDigits 10 settings.styleLimit ++
            '}' :: ['}']))))))) := by
    unfold toJson
    simp only [List.append_assoc, List.cons_append]
  have passes (rest : List Char) : Json.readField [passesField, renderingField] [] {}
      (label passesName ++ ('[' :: (Json.commaSeparated
        (settings.passes.map fun kind => Json.quote kind.name) ++ ']' :: rest))) =
      .ok ((passesName, { passes := settings.passes }), rest) :=
    Json.readField_label passesField rfl List.not_mem_nil
      (passesField_read {} settings.passes rest)
  have rendering : Json.readField [passesField, renderingField] [passesName]
      { passes := settings.passes } (label renderingName ++ ('{' :: (label limitName ++
        (Nat.toDigits 10 settings.styleLimit ++ '}' :: ['}'])))) =
      .ok ((renderingName, settings), ['}']) :=
    Json.readField_label renderingField rfl (by decide)
      (renderingField_read { passes := settings.passes } fits ['}'])
  have record : Json.readRecord [passesField, renderingField] {} settings.toJson =
      .ok (settings, []) := by
    rw [written]
    exact (Json.readNamedFields_more (passes _) _).trans
      (Json.readNamedFields_last rendering _)
  rw [readJson, record]
  rfl

/-- Whatever is read for a field, the limit has at most 64 bits. -/
theorem fields_keep_fits : ∀ field ∈ [passesField, renderingField],
    field.Keeps fun settings : Settings => settings.styleLimit ≤ Json.greatestWhole := by
  have limit : ∀ field ∈ [limitField], field.Keeps (· ≤ Json.greatestWhole) := by
    intro field member record text _
    cases List.mem_singleton.mp member
    exact Json.yields_readWhole text
  intro field member record text fits
  rcases List.mem_cons.mp member with rfl | last
  · exact Json.yields_bind fun _ _ => Json.yields_ok fits
  · cases List.mem_singleton.mp last
    refine Json.yields_bind fun (styleLimit, rest) read => Json.yields_ok ?_
    exact Json.yields_readRecord limit (by decide) text _ _ read

/-- A limit that has been read has at most 64 bits. -/
theorem fits_of_readJson {text : List Char} {settings : Settings}
    (read : readJson text = .ok settings) : settings.styleLimit ≤ Json.greatestWhole := by
  have holds : ({} : Settings).styleLimit ≤ Json.greatestWhole := by decide
  cases record : Json.readRecord [passesField, renderingField] {} text with
  | error fault =>
      rw [readJson, record] at read
      cases read
  | ok result =>
      obtain ⟨made, rest⟩ := result
      have fits := Json.yields_readRecord fields_keep_fits holds text made rest record
      rw [readJson, record] at read
      simp only [bind, Except.bind] at read
      split at read
      next =>
        cases read
        exact fits
      next => cases read

/-! ## Round trips -/

/-- The written form as a text. -/
def written (settings : Settings) : String := String.ofList settings.toJson

/-- Settings that may be used. -/
structure Acceptable (settings : Settings) : Prop where
  /-- No pass is listed twice. -/
  distinct : settings.passes.Nodup
  /-- Some rule may be accepted. -/
  positive : 0 < settings.styleLimit
  /-- The limit has at most 64 bits. -/
  fits : settings.styleLimit ≤ Json.greatestWhole

theorem ofJson_eq_ok_iff {text : String} {settings : Settings} : ofJson text = .ok settings ↔
    readJson text.toList = .ok settings ∧ settings.fault? = none := by
  unfold ofJson
  cases read : readJson text.toList with
  | error fault => simp
  | ok made =>
      cases fault : made.fault? with
      | some error =>
          simp only [fault, reduceCtorEq, Except.ok.injEq, false_iff, not_and]
          rintro rfl
          simp [fault]
      | none =>
          simp only [fault, Except.ok.injEq]
          exact ⟨fun same => ⟨same, same ▸ fault⟩, And.left⟩

theorem ofJson_written {settings : Settings} (fits : settings.styleLimit ≤ Json.greatestWhole) :
    ofJson settings.written = settings.verdict := by
  rw [ofJson, written, String.toList_ofList, readJson_toJson fits]
  rfl

theorem acceptable_iff {settings : Settings} (fits : settings.styleLimit ≤ Json.greatestWhole) :
    settings.fault? = none ↔ settings.Acceptable := by
  have judged := judged_verdict settings
  unfold verdict at judged
  constructor
  · intro noFault
    rw [noFault] at judged
    cases judged with
    | accepted distinct positive => exact ⟨distinct, positive, fits⟩
  · rintro ⟨distinct, positive, -⟩
    cases fault : settings.fault? with
    | none => rfl
    | some error =>
        rw [fault] at judged
        cases judged with
        | repeatedPass split _ again =>
            rw [split] at distinct
            exact absurd rfl
              ((List.nodup_append.mp distinct).2.2 _ again _ List.mem_cons_self)
        | noStyleBudget _ empty => exact absurd empty (Nat.ne_of_gt positive)

/-- **Settings survive being written and read.** Settings that are read from any text are
acceptable, and reading what is written for them gives the same settings. Whatever list of passes
and limit of 64 bits are written, reading them gives them back exactly if nothing is wrong with
them, and otherwise reports the first pass that is listed again, or if there is none, that the
limit is zero. -/
theorem ofJson_roundTrip :
    (∀ text settings, ofJson text = .ok settings →
      settings.Acceptable ∧ ofJson settings.written = .ok settings) ∧
    ∀ settings : Settings, settings.styleLimit ≤ Json.greatestWhole →
      Judged settings (ofJson settings.written) ∧
        (settings.fault? = none ↔ ofJson settings.written = .ok settings) := by
  refine ⟨fun text settings read => ?_, fun settings fits => ?_⟩
  · obtain ⟨parsed, noFault⟩ := ofJson_eq_ok_iff.mp read
    have fits := fits_of_readJson parsed
    refine ⟨(acceptable_iff fits).mp noFault, ?_⟩
    rw [ofJson_written fits, verdict, noFault]
  · rw [ofJson_eq_ok_iff, ofJson_written fits, written, String.toList_ofList]
    exact ⟨judged_verdict settings, fun noFault => ⟨readJson_toJson fits, noFault⟩, And.right⟩

/-- A pass may be written as an object and each record as an array; a pass that is listed again
is reported before a limit of zero. -/
theorem ofJson_roundTrip_arrays :
    (({ passes := [.headOrder], styleLimit := 7 } : Settings).Acceptable ∧
      ofJson (written { passes := [.headOrder], styleLimit := 7 }) =
        .ok { passes := [.headOrder], styleLimit := 7 }) ∧
    Judged { passes := [.headOrder, .headOrder], styleLimit := 0 }
      (ofJson (written { passes := [.headOrder, .headOrder], styleLimit := 0 })) :=
  ⟨ofJson_roundTrip.1 " [ [ \x7b \"reorder-head\" : null \x7d ] , [ 7 ] ] " _ (by decide +kernel),
    (ofJson_roundTrip.2 _ (by decide)).1⟩

end Settings

end FirstPaint
