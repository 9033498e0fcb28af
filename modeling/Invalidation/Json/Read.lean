import Invalidation.Json.Skip

/-! Reading a text by its schema, from left to right. The first problem met decides the failure:
an error about the shape hides what comes after it, and one of the grammar hides missing fields.
-/

namespace Invalidation.Json

/-- The failure where a value of another type stands. A value without parts is read to its end
first, and fails on its own account if it can.
-/
def mismatch (expected : String) (bytes : Bytes)
    : Failure :=
  match skipBlank bytes with
  | openList :: _ | openObject :: _ => .data (.invalidType expected)
  | bytes =>
      match readScalar (fun rest => (Quoted.read rest).map (·.2))
          (fun bytes => (Number.read bytes).map (·.2)) bytes with
      | .ok _ => .data (.invalidType expected)
      | .error failure => failure

def readNatural (width : Width) : Reader Failure Nat := fun bytes =>
  match skipBlank bytes with
  | [] => .error .truncated
  | b :: rest =>
      if b = minus || isDigit b then do
        match ← Number.read (b :: rest) with
        | (.natural value, rest) =>
            if value < width.limit then .ok (value, rest)
            else .error (.data (.invalidValue width.text))
        | (.negative, _) => .error (.data (.invalidValue width.text))
        | (.floating, _) => .error (.data (.invalidType width.text))
      else .error (mismatch width.text (b :: rest))

def readBoolean : Reader Failure Bool := fun bytes =>
  match skipBlank bytes with
  | [] => .error .truncated
  | b :: rest =>
      if b = letter 't' then (readWord afterT rest).map (true, ·)
      else if b = letter 'f' then (readWord afterF rest).map (false, ·)
      else .error (mismatch "a boolean" (b :: rest))

/-- Reads a string, which stands in the place of what the message expects. -/
def readString (expected : String) : Reader Failure String := fun bytes =>
  match skipBlank bytes with
  | quote :: rest => Quoted.read rest
  | bytes => .error (mismatch expected bytes)

/-- Reads the word for no value, if it stands there; the answer tells whether it does. -/
def readNull : Reader Failure Bool := fun bytes =>
  match skipBlank bytes with
  | [] => .ok (false, [])
  | b :: rest =>
      if b = letter 'n' then (readWord afterN rest).map (true, ·) else .ok (false, b :: rest)

/-- Reads the word for no value, which has to stand there. -/
def readUnit : Reader Failure Unit := fun bytes => do
  match ← readNull bytes with
  | (true, rest) => .ok ((), rest)
  | (false, rest) => .error (mismatch "unit" rest)

/-- Moves to the next element of a list, over the comma if it is not the first one; the answer
tells whether there is one. The closing bracket stays.
-/
def nextElement (first : Bool) : Reader Failure Bool := fun bytes =>
  match skipBlank bytes, first with
  | [], _ => .error .truncated
  | closeList :: rest, _ => .ok (false, closeList :: rest)
  | bytes, true => .ok (true, bytes)
  | comma :: rest, false =>
      match skipBlank rest with
      | [] => .error .truncated
      | closeList :: _ => .error .malformed
      | bytes => .ok (true, bytes)
  | _, false => .error .malformed

def readByte (token : UInt8) : Reader Failure Unit := fun bytes =>
  match skipBlank bytes with
  | [] => .error .truncated
  | b :: rest => if b = token then .ok ((), rest) else .error .malformed

/-- Reads the elements of a list up to its closing bracket. -/
def readElements {α : Type} (element : Reader Failure α)
    : Nat → Bool → Reader Failure (List α)
  | 0, _ => throw .truncated
  | fuel + 1, first => do
      if ← nextElement first then
        let head ← element
        return head :: (← readElements element fuel false)
      else
        readByte closeList
        return []

/-- Reads exactly so many elements, where `index` of them were read before. -/
def readExactly {α : Type} (element : Reader Failure α) (expected : String)
    : Nat → Nat → Reader Failure (List α)
  | 0, _ => do
      readByte closeList
      return []
  | count + 1, index => do
      if ← nextElement (index = 0) then
        let head ← element
        return head :: (← readExactly element expected count (index + 1))
      else throw (.data (.invalidLength index expected))

/-- Moves to the next member of an object, over the comma if it is not the first one, and reads its
name; after the last one it reads the closing bracket.
-/
def nextName? (first : Bool) : Reader Failure (Option String) := fun bytes =>
  match skipBlank bytes, first with
  | [], _ => .error .truncated
  | closeObject :: rest, _ => .ok (none, rest)
  | quote :: rest, true => (Quoted.read rest).map fun (name, rest) => (some name, rest)
  | comma :: rest, false =>
      match skipBlank rest with
      | [] => .error .truncated
      | quote :: rest => (Quoted.read rest).map fun (name, rest) => (some name, rest)
      | _ => .error .malformed
  | _, _ => .error .malformed

/-- Reads the members of an object up to its closing bracket, each into its slot. -/
def readMembers {σ : Type} (member : String → σ → Reader Failure σ)
    : Nat → Bool → σ → Reader Failure σ
  | 0, _, _ => throw .truncated
  | fuel + 1, first, slots => do
      match ← nextName? first with
      | some name => readMembers member fuel false (← member name slots)
      | none => return slots

def peek : Reader Failure UInt8 := fun bytes =>
  match skipBlank bytes with
  | [] => .error .truncated
  | b :: rest => .ok (b, b :: rest)

/-- Reads the value of a field into its slot; a field whose slot is full stands there twice. -/
def readSlot {α : Type} (name : String) (slot : Option α) (value : Reader Failure α)
    : Reader Failure (Option α) := do
  if slot.isSome then throw (.data (.duplicateField name))
  readByte colon
  return some (← value)

mutual

def read {α : Type} : Schema α → Reader Failure α
  | .natural width => readNatural width
  | .boolean => readBoolean
  | .text => readString "a string"
  | .optional inner => do
      if ← readNull then return none
      return some (← read inner)
  | .sequence element => do
      if (← peek) = openList then
        readByte openList
        readElements (read element) (← get).length true
      else throw (mismatch "a sequence" (← get))
  | .exactly count element => do
      if (← peek) = openList then
        readByte openList
        readExactly (read element) (Schema.exactlyText count) count 0
      else throw (mismatch (Schema.exactlyText count) (← get))
  | .choice _ variants => do
      let first ← peek
      if first = quote then
        readVariant variants variants.names (← readString "variant identifier") false
      else if first = openObject then
        readByte openObject
        let name ← readString "variant identifier"
        let value ← readVariant variants variants.names name true
        readByte closeObject
        return value
      else throw .malformed
  | .record name fields make _ _ => do
      let first ← peek
      if first = openList then
        readByte openList
        let values ← readFields fields (Schema.lengthText name fields.names.length) 0
        readByte closeList
        return make values
      else if first = openObject then
        readByte openObject
        let slots ← readMembers (readMember fields) (← get).length true fields.empty
        match fields.finish slots with
        | .ok values => return make values
        | .error fault => throw (.data fault)
      else throw (mismatch (Schema.recordText name) (← get))

/-- Reads the fields of a record that is written as a list, where `index` of them stood before. -/
def readFields {β σ : Type} (fields : Fields β σ) (expected : String) (index : Nat)
    : Reader Failure β :=
  match fields with
  | .nil => return ()
  | .required _ value rest => do
      if ← nextElement (index = 0) then
        let head ← read value
        return (head, ← readFields rest expected (index + 1))
      else throw (.data (.invalidLength index expected))
  | .defaulted _ value standard rest => do
      if ← nextElement (index = 0) then
        let head ← read value
        return (head, ← readFields rest expected (index + 1))
      else return (standard, ← readFields rest expected (index + 1))
  | .omissible _ value rest => do
      if ← nextElement (index = 0) then
        let absent ← readNull
        let head ← if absent then pure none else some <$> read value
        return (head, ← readFields rest expected (index + 1))
      else return (none, ← readFields rest expected (index + 1))

/-- Reads the member of an object that follows its name. A name that no field has is passed over
with its value.
-/
def readMember {β σ : Type} (fields : Fields β σ) (name : String) (slots : σ)
    : Reader Failure σ :=
  match fields, slots with
  | .nil, () => do
      readByte colon
      set (← (skipValue (← get) : Except Failure Bytes))
  | .required field value rest, (slot, slots) => do
      if field = name then return (← readSlot name slot (read value), slots)
      else return (slot, ← readMember rest name slots)
  | .defaulted field value _ rest, (slot, slots) => do
      if field = name then return (← readSlot name slot (read value), slots)
      else return (slot, ← readMember rest name slots)
  | .omissible field value rest, (slot, slots) => do
      if field = name then
        let inner := do
          if ← readNull then return none
          return some (← read value)
        return (← readSlot name slot inner, slots)
      else return (slot, ← readMember rest name slots)

/-- Reads the variant of the name. With a payload, a bare variant has none to give and its place is
taken by the word for no value.
-/
def readVariant {α : Type} (variants : Variants α) (known : List String) (name : String)
    (payload : Bool)
    : Reader Failure α :=
  match variants with
  | .nil => throw (.data (.unknownVariant name known))
  | .bare variant value _ _ rest => do
      if variant = name then
        if payload then
          readByte colon
          readUnit
        return value
      else readVariant rest known name payload
  | .carrying variant inner wrap _ _ rest => do
      if variant = name then
        if payload then
          readByte colon
          return wrap (← read inner)
        else throw (.data (.invalidType "newtype variant"))
      else readVariant rest known name payload

end

/-- Reads a whole text as one value, after which nothing but blanks may stand. -/
def decode {α : Type} (schema : Schema α) (bytes : Bytes)
    : Except Failure α := do
  let (value, rest) ← (read schema).run bytes
  if skipBlank rest = [] then return value else .error .malformed

end Invalidation.Json
