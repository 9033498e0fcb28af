import Invalidation.MessagePack.Marker
import Invalidation.Text.Lossy

/-! Reading a MessagePack document by its schema. Names of fields and variants may be given as text,
as bytes or by their index; records may be maps, arrays, or, like sequences of numbers, plain bytes.
-/

namespace Invalidation.MessagePack

/-- A value up to its first element: values without elements are there as a whole. -/
inductive Head where
  | nil
  | boolean (value : Bool)
  | natural (value : Nat)
  /-- A number of a signed type, whatever its sign. -/
  | integer (value : Int)
  | floating
  | text (bytes : Bytes)
  | binary (bytes : Bytes)
  | array (count : Nat)
  | map (count : Nat)
  | extension (length : Nat)
deriving DecidableEq

/-- How many levels of arrays, maps and extensions a document may have, and one more. -/
def depthLimit : Nat := 1024

/-- A head whose elements are a level deeper, where so many levels are left. -/
def deeper (depth : Nat) (head : Head)
    : Reader Failure Head :=
  if depth ≤ 1 then throw .tooDeep else return head

/-- Reads a value of the announced type up to its first element. -/
def readHead (depth : Nat) : Marker → Reader Failure Head
  | .positive value => return .natural value
  | .negative magnitude => return .integer (-magnitude)
  | .nil => return .nil
  | .reserved => throw (.wrongMarker .reserved)
  | .boolean value => return .boolean value
  | .unsigned bytes => return .natural (← readNumber bytes)
  | .signed bytes => return .integer (ofTwosComplement bytes (← readNumber bytes))
  | .floating bytes => do
      let _ ← readNumber bytes
      return .floating
  | .shortText length => return .text (← readContents length)
  | .text bytes => return .text (← readContents (← readNumber bytes))
  | .binary bytes => return .binary (← readContents (← readNumber bytes))
  | .shortArray count => deeper depth (.array count)
  | .array bytes => do deeper depth (.array (← readNumber bytes))
  | .shortMap count => deeper depth (.map count)
  | .map bytes => do deeper depth (.map (← readNumber bytes))
  | .fixedExtension length => deeper depth (.extension length)
  | .extension bytes => do deeper depth (.extension (← readNumber bytes))

/-- Reads the next value up to its first element. -/
def nextHead (depth : Nat) : Reader Failure Head := do readHead depth (← readMarker)

/-- Reads the next value, which has to be a number, a truth value or nil; any other is refused for
its type alone, before its contents.
-/
def nextPlain : Reader Failure Head := do
  let marker ← readMarker
  match marker with
  | .positive _ | .negative _ | .nil | .boolean _ | .unsigned _ | .signed _ | .floating _ =>
      readHead depthLimit marker
  | _ => throw (.wrongMarker marker)

/-- The failure where a value of another type stands. A text that is not well formed fails for that
first.
-/
def mismatch (expected : String) : Head → Failure
  | .text bytes => if bytes.text?.isSome then .data (.invalidType expected) else .notUtf8
  | _ => .data (.invalidType expected)

def readNatural (width : Width) : Reader Failure Nat := do
  match ← nextPlain with
  | .natural value =>
      if value < width.limit then return value else throw (.data (.invalidValue width.text))
  | .integer value =>
      if 0 ≤ value ∧ value < width.limit then return value.toNat
      else throw (.data (.invalidValue width.text))
  | head => throw (mismatch width.text head)

def readBoolean : Reader Failure Bool := do
  match ← nextPlain with
  | .boolean value => return value
  | head => throw (mismatch "a boolean" head)

/-- Reads a text, which may be stored as bytes. -/
def readText (depth : Nat) : Reader Failure String := do
  match ← nextHead depth with
  | .text bytes =>
      match bytes.text? with
      | some text => return text
      | none => throw .notUtf8
  | .binary bytes =>
      match bytes.text? with
      | some text => return text
      | none => throw (.data (.invalidValue "a string"))
  | head => throw (mismatch "a string" head)

/-- Reads nil, if it stands there; the answer tells whether it does. -/
def readNil : Reader Failure Bool := fun bytes =>
  match bytes with
  | [] => .error .noMarker
  | b :: rest => if Marker.ofByte b = .nil then .ok (true, rest) else .ok (false, b :: rest)

def expectNil : Reader Failure Unit := do
  match ← readMarker with
  | .nil => return ()
  | marker => throw (.wrongMarker marker)

def readMany {α : Type} (element : Reader Failure α) : Nat → Reader Failure (List α)
  | 0 => return []
  | count + 1 => do
      let head ← element
      return head :: (← readMany element count)

/-- Passes over so many values. -/
def skipMany (skip : Reader Failure Unit) : Nat → Reader Failure Unit
  | 0 => return ()
  | count + 1 => do
      skip
      skipMany skip count

/-- Passes over a value that nobody asked for, where so many levels are left. -/
def skip : Nat → Reader Failure Unit
  | 0 => throw .tooDeep
  | depth + 1 => do
      match ← nextHead (depth + 1) with
      | .array count => skipMany (skip depth) count
      | .map count => skipMany (skip depth) (2 * count)
      | .extension length => do
          let _ ← readNumber 1
          let _ ← readContents length
      | _ => return ()

/-- How a document names a field or a variant: by its place or by its name. -/
inductive Label where
  | index (value : Nat)
  | name (bytes : Bytes)
deriving DecidableEq

/-- Whether a label names the first of the fields or variants that are left. -/
def Label.isHead (name : String) : Label → Bool
  | index value => value = 0
  | .name bytes => bytes = Bytes.ofText name

/-- What a label names among the fields or variants after the first. -/
def Label.tail : Label → Label
  | index value => index (value - 1)
  | .name bytes => .name bytes

/-- Reads the label of a field. No field has a name that is not well formed, so that such a name is
one that nobody asked for.
-/
def readFieldLabel (depth : Nat) : Reader Failure Label := do
  match ← nextHead depth with
  | .natural value => return .index value
  | .text bytes | .binary bytes => return .name bytes
  | head => throw (mismatch "field identifier" head)

def readVariantLabel (depth : Nat) : Reader Failure Label := do
  match ← nextHead depth with
  | .natural value => return .index value
  | .text bytes => if bytes.text?.isSome then return .name bytes else throw .notUtf8
  | .binary bytes => return .name bytes
  | head => throw (mismatch "variant identifier" head)

def unknownVariant (known : List String) : Label → Failure
  | .index _ => .data (.invalidValue s!"variant index 0 <= i < {known.length}")
  | .name bytes => .data (.unknownVariant (Text.lossy bytes) known)

/-- The number of elements of a map, if a map stands there. Only a map announces a payload for a
variant, so nothing is consumed otherwise.
-/
def readMapCount? : Reader Failure (Option Nat) := fun bytes =>
  match bytes with
  | [] => .error .noMarker
  | b :: rest =>
      match Marker.ofByte b with
      | .shortMap count => .ok (some count, rest)
      | .map width => do
          let (count, rest) ← readNumber width rest
          return (some count, rest)
      | _ => .ok (none, b :: rest)

/-- The value that a single byte stands for as an element of a sequence that is stored as bytes:
only numbers have one.
-/
def ofByte {α : Type} : Schema α → UInt8 → Except Failure α
  | .natural _, b => .ok b.toNat
  | schema, _ => .error (.data (.invalidType schema.expected))

/-- The values that bytes stand for as the fields of a record, where `index` stood before. Bytes
beyond the last field are left out.
-/
def fieldsOfBytes {β σ : Type} (fields : Fields β σ) (expected : String) (index : Nat)
    (bytes : Bytes)
    : Except Failure β :=
  match fields, bytes with
  | .nil, _ => .ok ()
  | .required _ _ _, [] => .error (.data (.invalidLength index expected))
  | .required _ value rest, b :: bytes => do
      let head ← ofByte value b
      return (head, ← fieldsOfBytes rest expected (index + 1) bytes)
  | .defaulted _ _ standard rest, [] => do
      return (standard, ← fieldsOfBytes rest expected (index + 1) [])
  | .defaulted _ value _ rest, b :: bytes => do
      let head ← ofByte value b
      return (head, ← fieldsOfBytes rest expected (index + 1) bytes)
  | .omissible _ _ rest, [] => return (none, ← fieldsOfBytes rest expected (index + 1) [])
  | .omissible _ value _, _ :: _ => .error (.data (.invalidType (Schema.optional value).expected))

/-- Reads the value of a field into its slot; a field whose slot is full stands there twice. -/
def readSlot {α : Type} (name : String) (slot : Option α) (value : Reader Failure α)
    : Reader Failure (Option α) := do
  if slot.isSome then throw (.data (.duplicateField name))
  return some (← value)

/-- Reads so many members of a map, each into its slot. -/
def readMembers {σ : Type} (member : σ → Reader Failure σ) : Nat → σ → Reader Failure σ
  | 0, slots => return slots
  | count + 1, slots => do readMembers member count (← member slots)

mutual

/-- Reads a value of the schema, where so many levels are left. -/
def read {α : Type} : Schema α → Nat → Reader Failure α
  | .natural width, _ => readNatural width
  | .boolean, _ => readBoolean
  | .text, depth => readText depth
  | .optional inner, depth => do
      if ← readNil then return none
      return some (← read inner depth)
  | .sequence element, depth => do
      match ← nextHead depth with
      | .array count => readMany (read element (depth - 1)) count
      | .binary bytes => (bytes.mapM (ofByte element) : Except Failure _)
      | head => throw (mismatch "a sequence" head)
  | .exactly count element, depth => do
      match ← nextHead depth with
      | .array found =>
          let values ← readMany (read element (depth - 1)) (min count found)
          if found < count then
            throw (.data (.invalidLength found (Schema.exactlyText count)))
          else if count < found then throw (.wrongLength count)
          else return values
      | .binary bytes =>
          let values ← ((bytes.take count).mapM (ofByte element) : Except Failure _)
          if bytes.length < count then
            throw (.data (.invalidLength bytes.length (Schema.exactlyText count)))
          else return values
      | head => throw (mismatch (Schema.exactlyText count) head)
  | .choice _ variants, depth => do
      match ← readMapCount? with
      | some 1 => readVariant variants variants.names (← readVariantLabel depth) true depth
      | some count => throw (.wrongLength count)
      | none => readVariant variants variants.names (← readVariantLabel depth) false depth
  | .record name fields make _ _, depth => do
      let expected := Schema.lengthText name fields.names.length
      match ← nextHead depth with
      | .array count =>
          let (values, left) ← readFields fields expected 0 count (depth - 1)
          if left = 0 then return make values else throw (.wrongLength (count - left))
      | .map count =>
          let slots ← readMembers (fun slots => do
            readMember fields (← readFieldLabel (depth - 1)) slots (depth - 1)) count fields.empty
          match fields.finish slots with
          | .ok values => return make values
          | .error fault => throw (.data fault)
      | .binary bytes => return make (← (fieldsOfBytes fields expected 0 bytes : Except Failure _))
      | head => throw (mismatch (Schema.recordText name) head)

/-- Reads the fields of a record that is written as an array, where `index` of them stood before
and `left` elements are left, and tells how many elements are left afterwards.
-/
def readFields {β σ : Type} (fields : Fields β σ) (expected : String)
    (index left depth : Nat)
    : Reader Failure (β × Nat) :=
  match fields with
  | .nil => return ((), left)
  | .required _ value rest => do
      if left = 0 then throw (.data (.invalidLength index expected))
      let head ← read value depth
      let (tail, left) ← readFields rest expected (index + 1) (left - 1) depth
      return ((head, tail), left)
  | .defaulted _ value standard rest => do
      let head ← if left = 0 then pure standard else read value depth
      let (tail, left) ← readFields rest expected (index + 1) (left - 1) depth
      return ((head, tail), left)
  | .omissible _ value rest => do
      let absent ← if left = 0 then pure true else readNil
      let head ← if absent then pure none else some <$> read value depth
      let (tail, left) ← readFields rest expected (index + 1) (left - 1) depth
      return ((head, tail), left)

/-- Reads the member of a map that follows its label. A label that no field has is passed over with
its value.
-/
def readMember {β σ : Type} (fields : Fields β σ) (label : Label) (slots : σ) (depth : Nat)
    : Reader Failure σ :=
  match fields, slots with
  | .nil, () => skip depth
  | .required name value rest, (slot, slots) => do
      if label.isHead name then return (← readSlot name slot (read value depth), slots)
      else return (slot, ← readMember rest label.tail slots depth)
  | .defaulted name value _ rest, (slot, slots) => do
      if label.isHead name then return (← readSlot name slot (read value depth), slots)
      else return (slot, ← readMember rest label.tail slots depth)
  | .omissible name value rest, (slot, slots) => do
      if label.isHead name then
        let inner := do
          if ← readNil then return none
          return some (← read value depth)
        return (← readSlot name slot inner, slots)
      else return (slot, ← readMember rest label.tail slots depth)

/-- Reads the variant of the label. With a payload, a bare variant has none to give and its place is
taken by nil.
-/
def readVariant {α : Type} (variants : Variants α) (known : List String) (label : Label)
    (payload : Bool) (depth : Nat)
    : Reader Failure α :=
  match variants with
  | .nil => throw (unknownVariant known label)
  | .bare name value _ _ rest => do
      if label.isHead name then
        if payload then expectNil
        return value
      else readVariant rest known label.tail payload depth
  | .carrying name inner wrap _ _ rest => do
      if label.isHead name then
        if payload then return wrap (← read inner depth)
        else throw (.data (.invalidType "newtype variant"))
      else readVariant rest known label.tail payload depth

end

/-- Reads a value from the front of a document and gives the rest, which need not be empty. -/
def decode {α : Type} (schema : Schema α) (bytes : Bytes)
    : Except Failure (α × Bytes) :=
  (read schema depthLimit).run bytes

end Invalidation.MessagePack
