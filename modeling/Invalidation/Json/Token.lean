import Invalidation.Reader
import Invalidation.Schema

/-! The bytes that JSON gives a meaning to, and what can go wrong with a text. A text that ends too
soon is told apart from one that breaks the grammar, and both from one of the wrong shape.
-/

namespace Invalidation.Json

/-- Why a text was refused. -/
inductive Failure where
  /-- The grammar does not allow what stands there. -/
  | malformed
  /-- The text ends before the value does. -/
  | truncated
  /-- The text is well formed up to there and does not have the shape asked for. -/
  | data (fault : Fault)
deriving DecidableEq

@[match_pattern] abbrev quote : UInt8 := 0x22
@[match_pattern] abbrev plus : UInt8 := 0x2B
@[match_pattern] abbrev comma : UInt8 := 0x2C
@[match_pattern] abbrev minus : UInt8 := 0x2D
@[match_pattern] abbrev point : UInt8 := 0x2E
@[match_pattern] abbrev slash : UInt8 := 0x2F
@[match_pattern] abbrev zero : UInt8 := 0x30
@[match_pattern] abbrev colon : UInt8 := 0x3A
@[match_pattern] abbrev openList : UInt8 := 0x5B
@[match_pattern] abbrev backslash : UInt8 := 0x5C
@[match_pattern] abbrev closeList : UInt8 := 0x5D
@[match_pattern] abbrev openObject : UInt8 := 0x7B
@[match_pattern] abbrev closeObject : UInt8 := 0x7D

def letter (c : Char) : UInt8 := c.toNat.toUInt8

/-- Space, line feed, tab and carriage return stand between tokens without meaning. -/
def isBlank (b : UInt8) : Bool := b = 0x20 || b = 0x0A || b = 0x09 || b = 0x0D

def isDigit (b : UInt8) : Bool := 0x30 ≤ b && b ≤ 0x39

/-- The text from its first byte that is not blank. -/
def skipBlank (bytes : Bytes) : Bytes := bytes.dropWhile isBlank

/-- The rest of a word whose first byte was seen, such as "ull" after "n". -/
def readWord : Bytes → Bytes → Except Failure Bytes
  | [], rest => .ok rest
  | _ :: _, [] => .error .truncated
  | w :: word, b :: rest => if b = w then readWord word rest else .error .malformed

/-- What follows "n" in the word for no value. -/
def afterN : Bytes := [0x75, 0x6C, 0x6C]

/-- What follows "t" in the word for truth. -/
def afterT : Bytes := [0x72, 0x75, 0x65]

/-- What follows "f" in the word for falsehood. -/
def afterF : Bytes := [0x61, 0x6C, 0x73, 0x65]

end Invalidation.Json
