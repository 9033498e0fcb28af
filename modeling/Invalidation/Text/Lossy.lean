import Invalidation.Reader

/-! Text out of bytes that may not be well-formed UTF-8: each longest row of bytes that begins a
character and does not complete it gives way to one replacement character.
-/

namespace Invalidation.Text

/-- Whether a byte may stand after the first byte of a character. -/
def isTail (b : UInt8) : Bool := 0x80 ≤ b && b ≤ 0xBF

/-- Whether a byte may stand second, after the given first byte: the ranges leave out overlong
encodings, halves of code points, and code points beyond the last one.
-/
def isSecond (first b : UInt8)
    : Bool :=
  if first = 0xE0 then 0xA0 ≤ b && b ≤ 0xBF
  else if first = 0xED then 0x80 ≤ b && b ≤ 0x9F
  else if first = 0xF0 then 0x90 ≤ b && b ≤ 0xBF
  else if first = 0xF4 then 0x80 ≤ b && b ≤ 0x8F
  else isTail b

/-- The number of bytes of a character that begins with a byte, or none if no character does. -/
def encodedLength (first : UInt8)
    : Nat :=
  if first < 0x80 then 1
  else if first < 0xC2 then 0
  else if first < 0xE0 then 2
  else if first < 0xF0 then 3
  else if first < 0xF5 then 4
  else 0

/-- The length of the longest row at the front that begins a character; it is that of the character
if the row completes it.
-/
def begunLength : Bytes → Nat
  | first :: second :: rest =>
      if encodedLength first ≤ 1 || !isSecond first second then 1
      else 2 + ((rest.take (encodedLength first - 2)).takeWhile isTail).length
  | bytes => bytes.length

/-- The characters of the bytes, where the fuel is at least their number. -/
def lossyChars : Nat → Bytes → List Char
  | 0, _ | _, [] => []
  | fuel + 1, first :: rest =>
      let begun := (first :: rest).take (begunLength (first :: rest))
      let chars :=
        match Bytes.text? begun with
        | some text => text.toList
        | none => ['\uFFFD']
      chars ++ lossyChars fuel ((first :: rest).drop (begunLength (first :: rest)))

/-- The text of the bytes, with replacement characters where they are not well formed. -/
def lossy (bytes : Bytes) : String := String.ofList (lossyChars bytes.length bytes)

end Invalidation.Text
