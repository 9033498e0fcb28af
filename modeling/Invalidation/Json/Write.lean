import Invalidation.Json.Quoted

/-! Writing a value by its schema, without blanks, with the members in the order of the fields. -/

namespace Invalidation.Json

def writeNatural (value : Nat)
    : Bytes :=
  (Nat.toDigits 10 value).map letter

/-- The word for no value. -/
def null : Bytes := letter 'n' :: afterN

def commaSeparated (parts : List Bytes) : Bytes := [comma].intercalate parts

def writeMember (name : String) (value : Bytes) : Bytes := Quoted.write name ++ colon :: value

mutual

def write {α : Type} : Schema α → α → Bytes
  | .natural _, value => writeNatural value
  | .boolean, value => if value then letter 't' :: afterT else letter 'f' :: afterF
  | .text, value => Quoted.write value
  | .optional inner, value =>
      match value with
      | some value => write inner value
      | none => null
  | .sequence element, values =>
      openList :: commaSeparated (values.map (write element)) ++ [closeList]
  | .exactly _ element, values =>
      openList :: commaSeparated (values.map (write element)) ++ [closeList]
  | .choice _ variants, value => writeVariant variants value
  | .record _ fields _ parts _, value =>
      openObject :: commaSeparated (writeFields fields (parts value)) ++ [closeObject]

/-- The members that the fields of a record are written as. -/
def writeFields {β σ : Type} : Fields β σ → β → List Bytes
  | .nil, () => []
  | .required name value rest, (head, tail) =>
      writeMember name (write value head) :: writeFields rest tail
  | .defaulted name value _ rest, (head, tail) =>
      writeMember name (write value head) :: writeFields rest tail
  | .omissible name value rest, (head, tail) =>
      match head with
      | some head => writeMember name (write value head) :: writeFields rest tail
      | none => writeFields rest tail

/-- The text of a variant: its name, or an object of its name and payload. -/
def writeVariant {α : Type} : Variants α → α → Bytes
  | .nil, _ => null
  | .bare name _ test _ rest, value =>
      if test value then Quoted.write name else writeVariant rest value
  | .carrying name payload _ unwrap? _ rest, value =>
      match unwrap? value with
      | some inner => openObject :: writeMember name (write payload inner) ++ [closeObject]
      | none => writeVariant rest value

end

end Invalidation.Json
