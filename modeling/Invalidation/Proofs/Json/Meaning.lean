import Invalidation.Proofs.Json.Members

/-! What a schema takes from a value. Members of an object count by their names, wherever they stand,
and those of other names not at all.
-/

namespace Invalidation.Json

/-- What is taken from the one value that a name may have; without a value, what stands for it. -/
def single? {α : Type} (values : List Value) (absent : Option α) (present : Value → Option α)
    : Option α :=
  match values with
  | [] => absent
  | [value] => present value
  | _ => none

/-- What is taken from a value that may be null. -/
def nullOr? {α : Type} (present : Value → Option α) : Value → Option (Option α)
  | .null => some none
  | value => (present value).map some

/-- The natural number of a value, if it is one that the width holds. -/
def Value.natural? (width : Width) : Value → Option Nat
  | .number numeral => numeral.natural?.filter (· < width.limit)
  | _ => none

def Value.truth? : Value → Option Bool
  | .boolean truth => some truth
  | _ => none

def Value.text? : Value → Option String
  | .text parts => Quoted.text? parts
  | _ => none

def Value.elements? : Value → Option (List Value)
  | .list elements => some elements
  | _ => none

/-- The name of a variant, alone or with its payload as the only member of an object. -/
def Value.variant? : Value → Option (String × Option Value)
  | .text name => (Quoted.text? name).map (·, none)
  | .object [(name, payload)] => (Quoted.text? name).map (·, some payload)
  | _ => none

/-- What is taken from the elements of a list or from the members of an object. -/
def Value.fromParts? {α : Type} (fromList : List Value → Option α) (fromObject : Members → Option α)
    : Value → Option α
  | .list elements => fromList elements
  | .object members => fromObject members
  | _ => none

/-- A variant without a payload is there alone or with null. -/
def bare? {α : Type} (value : α) : Option Value → Option α
  | none | some .null => some value
  | _ => none

mutual

/-- What a schema takes from a value. -/
def decode? {α : Type} (schema : Schema α) (value : Value)
    : Option α :=
  match schema with
  | .natural width => value.natural? width
  | .boolean => value.truth?
  | .text => value.text?
  | .optional inner => nullOr? (decode? inner) value
  | .sequence element => value.elements?.bind fun values => values.mapM (decode? element)
  | .exactly count element =>
      value.elements?.bind fun values =>
        if values.length = count then values.mapM (decode? element) else none
  | .choice _ variants =>
      value.variant?.bind fun (name, payload) => decodeVariant? variants name payload
  | .record _ fields make _ _ =>
      value.fromParts?
        (fun values =>
          if values.length ≤ fields.names.length then (decodeList? fields values).map make else none)
        (fun members => ((named? members).bind (decodeFields? fields)).map make)

/-- What the fields of a record take from the members of an object. -/
def decodeFields? {β σ : Type} (fields : Fields β σ) (members : List (String × Value))
    : Option β :=
  match fields with
  | .nil => some ()
  | .required name value rest => do
      let head ← single? (valuesOf name members) value.absent? (decode? value)
      return (head, ← decodeFields? rest (others name members))
  | .defaulted name value standard rest => do
      let head ← single? (valuesOf name members) (some standard) (decode? value)
      return (head, ← decodeFields? rest (others name members))
  | .omissible name value rest => do
      let head ← single? (valuesOf name members) (some none) (nullOr? (decode? value))
      return (head, ← decodeFields? rest (others name members))

/-- What the fields of a record take from the first elements of a list. -/
def decodeList? {β σ : Type} (fields : Fields β σ) (values : List Value)
    : Option β :=
  match fields, values with
  | .nil, _ => some ()
  | .required _ _ _, [] => none
  | .required _ schema rest, value :: values | .defaulted _ schema _ rest, value :: values => do
      return (← decode? schema value, ← decodeList? rest values)
  | .defaulted _ _ standard rest, [] => (decodeList? rest []).map (standard, ·)
  | .omissible _ schema rest, value :: values => do
      return (← nullOr? (decode? schema) value, ← decodeList? rest values)
  | .omissible _ _ rest, [] => (decodeList? rest []).map (none, ·)

/-- The variant of a name, with what it takes from the payload. -/
def decodeVariant? {α : Type} (variants : Variants α) (name : String) (payload : Option Value)
    : Option α :=
  match variants with
  | .nil => none
  | .bare variant value _ _ rest =>
      if variant = name then bare? value payload else decodeVariant? rest name payload
  | .carrying variant inner wrap _ _ rest =>
      if variant = name then (payload.bind (decode? inner)).map wrap
      else decodeVariant? rest name payload

end

theorem nullOr?_of_ne {α : Type} {present : Value → Option α} {value : Value} (other : value ≠ .null)
    : nullOr? present value = (present value).map some := by
  cases value with
  | null => exact absurd rfl other
  | boolean | number | text | list | object => rfl

theorem Value.natural?_number_eq_some_iff {width : Width} {numeral : Numeral} {value : Nat}
    : (Value.number numeral).natural? width = some value
      ↔ numeral.natural? = some value ∧ value < width.limit := by
  simp only [natural?, Option.filter_eq_some_iff, decide_eq_true_eq]

theorem single?_eq_some_iff {α : Type} {values : List Value} {present : Value → Option α}
    {result : α}
    : single? values none present = some result
      ↔ ∃ value, values = [value] ∧ present value = some result := by
  match values with
  | [] | [_] | _ :: _ :: _ => simp [single?]

theorem decode?_object_eq_some_iff {α β σ : Type} {name : String} {fields : Fields β σ}
    {make : β → α} {parts : α → β} {make_parts : ∀ value, make (parts value) = value}
    {members : Members} {result : α}
    : decode? (.record name fields make parts make_parts) (.object members) = some result
      ↔ ∃ named values,
          named? members = some named
          ∧ decodeFields? fields named = some values
          ∧ make values = result := by
  simp [decode?, Value.fromParts?, Option.map_eq_some_iff, Option.bind_eq_some_iff]

theorem decodeFields?_required_eq_some_iff {α β σ : Type} {name : String} {schema : Schema α}
    {rest : Fields β σ} {members : List (String × Value)} {values : α × β}
    : decodeFields? (.required name schema rest) members = some values
      ↔ single? (valuesOf name members) schema.absent? (decode? schema) = some values.1
        ∧ decodeFields? rest (others name members) = some values.2 := by
  obtain ⟨head, tail⟩ := values
  rw [decodeFields?]
  simp [Option.bind_eq_some_iff]

end Invalidation.Json
