/-! Shapes of documents, as data. One schema value says how a document is laid out, which text an
error about it uses, and which value of the library it stands for; each document format reads and
writes any schema.
-/

namespace Invalidation

/-- The word sizes that a document may ask of a number. -/
inductive Width where
  | byte
  | short
  | long
  | size
deriving DecidableEq

/-- The least number that a width does not hold. -/
def Width.limit : Width → Nat
  | .byte => 0x100
  | .short => 0x10000
  | .long => 0x100000000
  | .size => 0x10000000000000000

theorem Width.limit_le (width : Width) : width.limit ≤ 0x10000000000000000 := by
  cases width <;> decide

def Width.text : Width → String
  | .byte => "u8"
  | .short => "u16"
  | .long => "u32"
  | .size => "usize"

/-- Why a well-formed document does not have the shape that its schema asks for. -/
inductive Fault where
  | missingField (name : String)
  | duplicateField (name : String)
  | unknownVariant (found : String) (known : List String)
  | invalidLength (found : Nat) (expected : String)
  | invalidType (expected : String)
  | invalidValue (expected : String)
deriving DecidableEq

/-- The known variants as a message lists them: two are joined by "or", more stand in a row. -/
def Fault.alternatives : List String → String
  | [] => "there are no variants"
  | [a] => s!"expected `{a}`"
  | [a, b] => s!"expected `{a}` or `{b}`"
  | names => "expected one of " ++ ", ".intercalate (names.map fun name => s!"`{name}`")

/-- The message for a fault, without its place in the document. -/
def Fault.message : Fault → String
  | missingField name => s!"missing field `{name}`"
  | duplicateField name => s!"duplicate field `{name}`"
  | unknownVariant found known => s!"unknown variant `{found}`, {Fault.alternatives known}"
  | invalidLength found expected => s!"invalid length {found}, expected {expected}"
  | invalidType expected => s!"invalid type, expected {expected}"
  | invalidValue expected => s!"invalid value, expected {expected}"

mutual

/-- The shape of a document that stands for a value of the given type. -/
inductive Schema : Type → Type 1
  | natural (width : Width) : Schema Nat
  | boolean : Schema Bool
  | text : Schema String
  | optional {α : Type} (inner : Schema α) : Schema (Option α)
  | sequence {α : Type} (element : Schema α) : Schema (List α)
  /-- A sequence of exactly so many elements. -/
  | exactly {α : Type} (count : Nat) (element : Schema α) : Schema (List α)
  | choice {α : Type} (name : String) (variants : Variants α) : Schema α
  /-- Named fields, read into slots of type `σ` and kept as a nested product of type `β`. -/
  | record {α β σ : Type} (name : String) (fields : Fields β σ) (make : β → α) (parts : α → β)
      (make_parts : ∀ value, make (parts value) = value) : Schema α

/-- The fields of a record in the order of their declaration, with the product of their values and
the product of the slots that a reader fills.
-/
inductive Fields : Type → Type → Type 1
  | nil : Fields Unit Unit
  /-- A field that has to be there, unless its value is optional and fields have names. -/
  | required {α β σ : Type} (name : String) (value : Schema α) (rest : Fields β σ)
      : Fields (α × β) (Option α × σ)
  /-- A field that takes a standard value when it is left out; it is always written. -/
  | defaulted {α β σ : Type} (name : String) (value : Schema α) (standard : α) (rest : Fields β σ)
      : Fields (α × β) (Option α × σ)
  /-- A field that is left out when there is no value. -/
  | omissible {α β σ : Type} (name : String) (value : Schema α) (rest : Fields β σ)
      : Fields (Option α × β) (Option (Option α) × σ)

/-- The variants of a choice in the order of their declaration. -/
inductive Variants : Type → Type 1
  | nil {α : Type} : Variants α
  /-- A variant written as its name alone; the test tells which value is written so. -/
  | bare {α : Type} (name : String) (value : α) (test : α → Bool)
      (eq_of_test : ∀ other, test other = true → other = value) (rest : Variants α) : Variants α
  /-- A variant written as its name together with a payload. -/
  | carrying {α β : Type} (name : String) (payload : Schema β) (wrap : β → α)
      (unwrap? : α → Option β) (wrap_unwrap : ∀ value inner, unwrap? value = some inner →
        wrap inner = value) (rest : Variants α) : Variants α

end

def Fields.names {β σ : Type} : Fields β σ → List String
  | .nil => []
  | .required name _ rest | .defaulted name _ _ rest | .omissible name _ rest => name :: rest.names

def Variants.names {α : Type} : Variants α → List String
  | .nil => []
  | .bare name _ _ _ rest | .carrying name _ _ _ _ rest => name :: rest.names

/-- What a message says that a record in this place has to be. -/
def Schema.recordText (name : String) : String := s!"struct {name}"

/-- What a message says that a record written as a sequence of its fields has to be. -/
def Schema.lengthText (name : String) (count : Nat)
    : String :=
  if count = 1 then s!"struct {name} with 1 element" else s!"struct {name} with {count} elements"

/-- What a message says that a sequence of a fixed number of elements has to be. -/
def Schema.exactlyText (count : Nat) : String := s!"an array of length {count}"

/-- What a message says that a value in this place has to be. -/
def Schema.expected {α : Type} : Schema α → String
  | .natural width => width.text
  | .boolean => "a boolean"
  | .text => "a string"
  | .optional _ => "option"
  | .sequence _ => "a sequence"
  | .exactly count _ => Schema.exactlyText count
  | .choice name _ => s!"enum {name}"
  | .record name _ _ _ _ => Schema.recordText name

/-- The value that a required field takes when it is left out of a document with named fields:
only an optional value has one.
-/
def Schema.absent? {α : Type} : Schema α → Option α
  | .optional _ => some none
  | _ => none

namespace Fields

/-- Slots before anything was read. -/
def empty {β σ : Type} : Fields β σ → σ
  | .nil => ()
  | .required _ _ rest => (none, rest.empty)
  | .defaulted _ _ _ rest => (none, rest.empty)
  | .omissible _ _ rest => (none, rest.empty)

/-- The values of the slots after everything was read. A slot that stayed empty takes the value
that its field allows for, and the first one without such a value is missing.
-/
def finish {β σ : Type} : Fields β σ → σ → Except Fault β
  | .nil, () => .ok ()
  | .required name value rest, (slot, slots) =>
      match slot <|> value.absent? with
      | some v => (rest.finish slots).map (v, ·)
      | none => .error (.missingField name)
  | .defaulted _ _ standard rest, (slot, slots) =>
      (rest.finish slots).map (slot.getD standard, ·)
  | .omissible _ _ rest, (slot, slots) => (rest.finish slots).map (slot.getD none, ·)

end Fields

end Invalidation
