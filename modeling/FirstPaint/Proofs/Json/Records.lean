import FirstPaint.Settings.Reader
import FirstPaint.Proofs.Json.WholeNumbers
import FirstPaint.Proofs.Json.StringLiterals

/-!
# Records that are read

What the reader of a record makes of the record is made by the readers of its fields, in whatever
order and form the members stand. A property that the defaults have and that each field keeps is
therefore a property of every record that has been read (`yields_readRecord`).

In the other direction, a member is read from the name of its field, a colon and a form that the
field takes (`readField_label`), and members follow each other behind commas.
-/

set_option autoImplicit false

namespace FirstPaint

namespace Json

variable {σ : Type}

/-! ## Properties of records -/

section Properties

variable {fields : List (Field σ)} {property : σ → Prop}

/-- Reading the field keeps a property of the record. -/
def Field.Keeps (property : σ → Prop) (field : Field σ) : Prop :=
  ∀ record text, property record → Yields property (field.read record text)

variable (keeps : ∀ field ∈ fields, field.Keeps property)

include keeps in
theorem yields_readField (seen : List String) {record : σ} (holds : property record)
    (text : List Char) :
    Yields (fun read => property read.2) (readField fields seen record text) := by
  unfold readField
  split
  next => exact yields_error
  next =>
    refine yields_bind fun (name, rest) _ => ?_
    dsimp only
    split
    next => exact yields_error
    next field found =>
      split
      next => exact yields_error
      next =>
        refine yields_bind fun (_, rest) _ => yields_bind fun (changed, rest) read => ?_
        exact yields_ok (keeps field (List.mem_of_find?_eq_some found) _ _ holds _ _ read)
  next => exact yields_error

include keeps in
theorem yields_readNamedFields (bound : Nat) (seen : List String) {record : σ}
    (holds : property record) (text : List Char) :
    Yields property (readNamedFields fields bound seen record text) := by
  induction bound generalizing seen record text with
  | zero => exact yields_error
  | succ bound ih =>
      refine yields_bind fun ((name, changed), rest) read => ?_
      have holds := yields_readField keeps seen holds text _ _ read
      dsimp only
      split
      next => exact yields_error
      next => exact yields_ok holds
      next => exact ih _ holds _
      next => exact yields_error

theorem yields_readFurtherFields (keeps : ∀ field ∈ fields, field.Keeps property) {record : σ}
    (holds : property record) (text : List Char) :
    Yields property (readFurtherFields fields record text) := by
  induction fields generalizing record text with
  | nil => exact yields_bind fun _ _ => yields_ok holds
  | cons field others ih =>
      unfold readFurtherFields
      dsimp only
      split
      next => exact yields_error
      next => exact yields_ok holds
      next =>
        split
        next => exact yields_error
        next => exact yields_error
        next =>
          refine yields_bind fun (changed, rest) read => ?_
          have holds := keeps field List.mem_cons_self _ _ holds _ _ read
          exact ih (fun field member => keeps field (List.mem_cons_of_mem _ member)) holds _
      next => exact yields_error

include keeps in
theorem yields_readFieldsInOrder {record : σ} (holds : property record) (text : List Char) :
    Yields property (readFieldsInOrder fields record text) := by
  unfold readFieldsInOrder
  split
  next => exact yields_error
  next => exact yields_ok holds
  next => exact yields_error
  next field others text _ =>
    refine yields_bind fun (changed, rest) read => ?_
    have holds := keeps field List.mem_cons_self _ _ holds _ _ read
    exact yields_readFurtherFields
      (fun field member => keeps field (List.mem_cons_of_mem _ member)) holds _

include keeps in
/-- **A record that has been read has what its fields keep.** -/
theorem yields_readRecord {defaults : σ} (holds : property defaults) (text : List Char) :
    Yields property (readRecord fields defaults text) := by
  unfold readRecord
  split
  next =>
    split
    next => exact yields_ok holds
    next => exact yields_readNamedFields keeps _ _ holds _
  next => exact yields_readFieldsInOrder keeps holds _
  next => exact yields_error

end Properties

/-! ## Members with names -/

section Members

variable {fields : List (Field σ)} {seen : List String} {record changed : σ}
  {text rest : List Char}

/-- A member is read from its name, a colon and a value that its field takes. -/
theorem readField_label (field : Field σ)
    (found : fields.find? (·.name == field.name) = some field) (new : field.name ∉ seen)
    (read : field.read record text = .ok (changed, rest)) :
    readField fields seen record (Settings.label field.name ++ text) =
      .ok ((field.name, changed), rest) := by
  have split : Settings.label field.name ++ text =
      '"' :: (quoteTail field.name ++ ':' :: text) := by
    rw [Settings.label, List.append_assoc, quote_append, List.singleton_append]
  have colon : expectMark ':' (':' :: text) = .ok ((), text) := rfl
  rw [split, readField, takes_quoteTail]
  simp only [bind, Except.bind, found, if_neg new, colon, read]
  rfl

/-- The last member stands before the closing brace. -/
theorem readNamedFields_last {name : String}
    (read : readField fields seen record text = .ok ((name, changed), '}' :: rest)) (bound : Nat) :
    readNamedFields fields (bound + 1) seen record text = .ok (changed, rest) := by
  simp only [readNamedFields, read, bind, Except.bind]
  rfl

/-- A member with a comma behind it is followed by another one. -/
theorem readNamedFields_more {name : String}
    (read : readField fields seen record text = .ok ((name, changed), ',' :: rest)) (bound : Nat) :
    readNamedFields fields (bound + 1) seen record text =
      readNamedFields fields bound (name :: seen) changed (skipBlanks rest) := by
  simp only [readNamedFields, read, bind, Except.bind]
  rfl

end Members

end Json

end FirstPaint
