import Invalidation.Json.Token

/-! String literals. Writing escapes the quote, the backslash and the control characters, byte by
byte; reading undoes every escape the grammar has and wants the result to be well-formed UTF-8.
-/

namespace Invalidation.Json.Quoted

def hexValue? (b : UInt8)
    : Option Nat :=
  if isDigit b then some (b.toNat - 48)
  else if letter 'a' ≤ b && b ≤ letter 'f' then some (b.toNat - 87)
  else if letter 'A' ≤ b && b ≤ letter 'F' then some (b.toNat - 55)
  else none

/-- Reads the four hexadecimal digits of an escape; fewer than four bytes cut it off, whatever they
are.
-/
def readHex : Bytes → Except Failure (Nat × Bytes)
  | a :: b :: c :: d :: rest =>
      match hexValue? a, hexValue? b, hexValue? c, hexValue? d with
      | some a, some b, some c, some d => .ok (((a * 16 + b) * 16 + c) * 16 + d, rest)
      | _, _, _, _ => .error .malformed
  | _ => .error .truncated

/-- The halves of a code point beyond 16 bits, joined. -/
def joinHalves (high low : Nat) : Nat := 0x10000 + (high - 0xD800) * 0x400 + (low - 0xDC00)

/-- The UTF-8 encoding of a code point that is no half of another. -/
def encodePoint (code : Nat) : Bytes := String.utf8EncodeChar (Char.ofNat code)

/-- Reads a code point after `\u`. A code point beyond 16 bits is spelled as two escapes, and
neither half of one may stand without the other.
-/
def readPoint (bytes : Bytes)
    : Except Failure (Bytes × Bytes) := do
  let (high, rest) ← readHex bytes
  if 0xDC00 ≤ high ∧ high < 0xE000 then .error .malformed
  else if high < 0xD800 ∨ 0xE000 ≤ high then return (encodePoint high, rest)
  else
    match rest with
    | [] | [backslash] => .error .truncated
    | backslash :: b :: rest => do
        if b ≠ letter 'u' then .error .malformed
        let (low, rest) ← readHex rest
        if 0xDC00 ≤ low ∧ low < 0xE000 then return (encodePoint (joinHalves high low), rest)
        .error .malformed
    | _ => .error .malformed

/-- Passes over a code point after `\u` whose value does not count, so that a half of one may
stand alone.
-/
def skipPoint (bytes : Bytes)
    : Except Failure (Bytes × Bytes) :=
  (readHex bytes).map fun (_, rest) => ([], rest)

/-- The byte that an escape of one letter stands for. -/
def shortEscape? (b : UInt8)
    : Option UInt8 :=
  if b = quote || b = backslash || b = slash then some b
  else if b = letter 'b' then some 0x08
  else if b = letter 'f' then some 0x0C
  else if b = letter 'n' then some 0x0A
  else if b = letter 'r' then some 0x0D
  else if b = letter 't' then some 0x09
  else none

/-- Reads what follows a backslash, with the given reader of code points. -/
def readEscape (readPoint : Bytes → Except Failure (Bytes × Bytes))
    : Bytes → Except Failure (Bytes × Bytes)
  | [] => .error .truncated
  | b :: rest =>
      if b = letter 'u' then readPoint rest
      else
        match shortEscape? b with
        | some plain => .ok ([plain], rest)
        | none => .error .malformed

/-- Reads up to the closing quote and gives the bytes that the literal stands for. Every step
consumes a byte, so the length of the text is fuel enough.
-/
def scan (readPoint : Bytes → Except Failure (Bytes × Bytes))
    : Nat → Bytes → Except Failure (Bytes × Bytes)
  | 0, _ | _, [] => .error .truncated
  | _ + 1, quote :: rest => .ok ([], rest)
  | fuel + 1, backslash :: rest => do
      let (escaped, rest) ← readEscape readPoint rest
      let (content, rest) ← scan readPoint fuel rest
      return (escaped ++ content, rest)
  | fuel + 1, b :: rest =>
      if b < 0x20 then .error .malformed
      else (scan readPoint fuel rest).map fun (content, rest) => (b :: content, rest)

/-- Reads a literal after its opening quote. The end of the literal is looked for first, and only
then whether its bytes are well formed.
-/
def read (bytes : Bytes)
    : Except Failure (String × Bytes) := do
  let (content, rest) ← scan readPoint bytes.length bytes
  match content.text? with
  | some text => return (text, rest)
  | none => .error .malformed

/-- Passes over a literal after its opening quote, whatever its bytes and code points are. -/
def skip (bytes : Bytes)
    : Except Failure Bytes :=
  (scan skipPoint bytes.length bytes).map (·.2)

/-- The digits of a number below 16, as escapes spell them. -/
def hexDigit (n : Nat) : UInt8 := (if n < 10 then 48 + n else 87 + n).toUInt8

/-- How a byte of a string is written. -/
def escape (b : UInt8)
    : Bytes :=
  if b = quote || b = backslash then [backslash, b]
  else if b = 0x08 then [backslash, letter 'b']
  else if b = 0x0C then [backslash, letter 'f']
  else if b = 0x0A then [backslash, letter 'n']
  else if b = 0x0D then [backslash, letter 'r']
  else if b = 0x09 then [backslash, letter 't']
  else if b < 0x20 then
    [backslash, letter 'u', zero, zero, hexDigit (b.toNat / 16), hexDigit (b.toNat % 16)]
  else [b]

def write (text : String)
    : Bytes :=
  quote :: (Bytes.ofText text).flatMap escape ++ [quote]

end Invalidation.Json.Quoted
