import Invalidation.Json.Skip

/-! The grammar of JSON. A value is kept as a text spells it, down to the digits of its numbers and
the escapes of its strings; only the blanks between its tokens are left out. A text of the value is
any that has its tokens in order, with blanks before, between and behind them.
-/

namespace Invalidation.Json

-----------------------------------------------------------------------------------------
-- Numbers
-----------------------------------------------------------------------------------------

/-- A row of at least one digit. -/
structure Digits where
  bytes : Bytes
  nonempty : bytes ≠ []
  areDigits : ∀ b ∈ bytes, isDigit b = true

/-- The digits by their values. -/
def Digits.values (digits : Digits) : List Nat := digits.bytes.map fun b => b.toNat - 48

/-- The exponent of a number: its letter may be a capital, and its sign may be left out. -/
structure Exponent where
  capital : Bool
  negative : Option Bool
  digits : Digits

def Exponent.spelling (exponent : Exponent)
    : Bytes :=
  (if exponent.capital then letter 'E' else letter 'e')
  :: (exponent.negative.elim [] fun negative => [if negative then minus else plus])
  ++ exponent.digits.bytes

/-- A number as it is spelled. Before the point a zero stands alone. -/
structure Numeral where
  negative : Bool
  whole : Digits
  zeroAlone : whole.bytes.head? = some zero → whole.bytes = [zero]
  fraction : Option Digits
  exponent : Option Exponent

namespace Numeral

def spelling (numeral : Numeral)
    : Bytes :=
  (if numeral.negative then [minus] else [])
  ++ numeral.whole.bytes
  ++ (numeral.fraction.elim [] fun digits => point :: digits.bytes)
  ++ numeral.exponent.elim [] Exponent.spelling

/-- The natural number that a numeral without sign, fraction and exponent spells. -/
def natural? (numeral : Numeral)
    : Option Nat :=
  if numeral.negative || numeral.fraction.isSome || numeral.exponent.isSome then none
  else some (Number.ofDigits numeral.whole.values)

end Numeral

-----------------------------------------------------------------------------------------
-- Strings
-----------------------------------------------------------------------------------------

namespace Quoted

/-- What a string is spelled by between its quotes, by its form alone: a code point may be half of
one, and bytes may be no characters.
-/
inductive Part where
  | byte (b : UInt8) (allowed : 0x20 ≤ b ∧ b ≠ quote ∧ b ≠ backslash)
  /-- An escape of one letter. -/
  | short (b : UInt8) (known : (shortEscape? b).isSome = true)
  /-- A code point, or half of one, by four hexadecimal digits. -/
  | point (a b c d : UInt8) (hexadecimal : ∀ digit ∈ [a, b, c, d], (hexValue? digit).isSome = true)

namespace Part

def bytes : Part → Bytes
  | byte b _ => [b]
  | short b _ => [backslash, b]
  | point a b c d _ => [backslash, letter 'u', a, b, c, d]

/-- The number of the code point that hexadecimal digits spell. -/
def code (a b c d : UInt8)
    : Nat :=
  let value (digit : UInt8) := (hexValue? digit).getD 0
  ((value a * 16 + value b) * 16 + value c) * 16 + value d

end Part

def spelling (parts : List Part)
    : Bytes :=
  quote :: parts.flatMap Part.bytes ++ [quote]

/-- The bytes that the parts stand for, unless half of a code point stands alone. -/
def content? : List Part → Option Bytes
  | [] => some []
  | .byte b _ :: rest => (content? rest).map (b :: ·)
  | .short b _ :: rest => (content? rest).map ((shortEscape? b).toList ++ ·)
  | .point a b c d _ :: rest =>
      let high := Part.code a b c d
      if high < 0xD800 ∨ 0xE000 ≤ high then (content? rest).map (encodePoint high ++ ·)
      else
        match rest with
        | .point a b c d _ :: rest =>
            let low := Part.code a b c d
            if high < 0xDC00 ∧ 0xDC00 ≤ low ∧ low < 0xE000 then
              (content? rest).map (encodePoint (joinHalves high low) ++ ·)
            else none
        | _ => none

/-- The text that the parts stand for, if they make up Unicode. -/
def text? (parts : List Part) : Option String := (content? parts).bind Bytes.text?

end Quoted

-----------------------------------------------------------------------------------------
-- Values
-----------------------------------------------------------------------------------------

/-- A value as it is spelled. Members of an object stand in order, and a name may be there twice. -/
inductive Value where
  | null
  | boolean (truth : Bool)
  | number (numeral : Numeral)
  | text (parts : List Quoted.Part)
  | list (elements : List Value)
  | object (members : List (List Quoted.Part × Value))

/-- The members of an object as they are spelled. -/
abbrev Members := List (List Quoted.Part × Value)

mutual

/-- The tokens of a value. -/
def Value.tokens : Value → List Bytes
  | .null => [letter 'n' :: afterN]
  | .boolean truth => [if truth then letter 't' :: afterT else letter 'f' :: afterF]
  | .number numeral => [numeral.spelling]
  | .text parts => [Quoted.spelling parts]
  | .list elements => [openList] :: elementTokens true elements
  | .object members => [openObject] :: memberTokens true members

/-- The tokens of a list behind its opening bracket; before the first element stands no comma. -/
def elementTokens (first : Bool) : List Value → List Bytes
  | [] => [[closeList]]
  | element :: rest =>
      (if first then [] else [[comma]]) ++ element.tokens ++ elementTokens false rest

/-- The tokens of an object behind its opening bracket. -/
def memberTokens (first : Bool) : List (List Quoted.Part × Value) → List Bytes
  | [] => [[closeObject]]
  | (name, value) :: rest =>
      (if first then [] else [[comma]]) ++ [Quoted.spelling name, [colon]] ++ value.tokens
      ++ memberTokens false rest

end

/-- A row of blanks. -/
def Blank (bytes : Bytes) : Prop := ∀ b ∈ bytes, isBlank b = true

/-- The bytes are the tokens in order, with blanks before, between and behind them. -/
inductive Laid : List Bytes → Bytes → Prop
  | nil {gap} (blank : Blank gap) : Laid [] gap
  | cons {gap token tokens bytes} (blank : Blank gap) (rest : Laid tokens bytes)
    : Laid (token :: tokens) (gap ++ token ++ bytes)

/-- The bytes are a text of the value. -/
def Value.IsText (value : Value) (bytes : Bytes) : Prop := Laid value.tokens bytes

end Invalidation.Json
