import Invalidation.MessagePack.Marker

/-! Writing a value by its schema, with every number and every length in its shortest form. Records
are written as maps with the names of their fields, or without names as arrays.
-/

namespace Invalidation.MessagePack

/-- So many bytes that spell a number, most significant first. -/
def bigEndian : Nat → Nat → Bytes
  | 0, _ => []
  | count + 1, value => (value >>> (8 * count)).toUInt8 :: bigEndian count value

/-- The first byte of a value whose low bits hold a count. -/
def marker (first count : Nat) : UInt8 := (first + count).toUInt8

/-- A natural number below 2^64. -/
def writeNatural (value : Nat)
    : Bytes :=
  if value < 0x80 then [marker 0 value]
  else if value < 0x100 then 0xCC :: bigEndian 1 value
  else if value < 0x10000 then 0xCD :: bigEndian 2 value
  else if value < 0x100000000 then 0xCE :: bigEndian 4 value
  else 0xCF :: bigEndian 8 value

/-- A text of less than 2^32 bytes. -/
def writeText (text : String)
    : Bytes :=
  let contents := Bytes.ofText text
  let length := contents.length
  let head :=
    if length < 0x20 then [marker 0xA0 length]
    else if length < 0x100 then 0xD9 :: bigEndian 1 length
    else if length < 0x10000 then 0xDA :: bigEndian 2 length
    else 0xDB :: bigEndian 4 length
  head ++ contents

/-- The head of an array of less than 2^32 elements. -/
def arrayHead (count : Nat)
    : Bytes :=
  if count < 0x10 then [marker 0x90 count]
  else if count < 0x10000 then 0xDC :: bigEndian 2 count
  else 0xDD :: bigEndian 4 count

/-- The head of a map of less than 2^32 members. -/
def mapHead (count : Nat)
    : Bytes :=
  if count < 0x10 then [marker 0x80 count]
  else if count < 0x10000 then 0xDE :: bigEndian 2 count
  else 0xDF :: bigEndian 4 count

def nil : Bytes := [0xC0]

mutual

/-- The document of a value of the schema, with the names of fields or without. -/
def write {α : Type} (named : Bool) : Schema α → α → Bytes
  | .natural _, value => writeNatural value
  | .boolean, value => [if value then 0xC3 else 0xC2]
  | .text, value => writeText value
  | .optional inner, value =>
      match value with
      | some value => write named inner value
      | none => nil
  | .sequence element, values =>
      arrayHead values.length ++ (values.map (write named element)).flatten
  | .exactly _ element, values =>
      arrayHead values.length ++ (values.map (write named element)).flatten
  | .choice _ variants, value => writeVariant named variants value
  | .record _ fields _ parts _, value =>
      let members := writeFields named fields (parts value)
      (if named then mapHead members.length else arrayHead members.length) ++ members.flatten

/-- The members or elements that the fields of a record are written as. A field without a value is
left out only where fields have names.
-/
def writeFields {β σ : Type} (named : Bool) : Fields β σ → β → List Bytes
  | .nil, () => []
  | .required name value rest, (head, tail) =>
      (label named name ++ write named value head) :: writeFields named rest tail
  | .defaulted name value _ rest, (head, tail) =>
      (label named name ++ write named value head) :: writeFields named rest tail
  | .omissible name value rest, (head, tail) =>
      match head with
      | some head => (label named name ++ write named value head) :: writeFields named rest tail
      | none => if named then writeFields named rest tail else nil :: writeFields named rest tail
where
  /-- The name in front of the value of a field, if names are written. -/
  label (named : Bool) (name : String) : Bytes := if named then writeText name else []

/-- The document of a variant: its name, or a map of its name and payload. -/
def writeVariant {α : Type} (named : Bool) : Variants α → α → Bytes
  | .nil, _ => nil
  | .bare name _ test _ rest, value =>
      if test value then writeText name else writeVariant named rest value
  | .carrying name payload _ unwrap? _ rest, value =>
      match unwrap? value with
      | some inner => mapHead 1 ++ writeText name ++ write named payload inner
      | none => writeVariant named rest value

end

end Invalidation.MessagePack
