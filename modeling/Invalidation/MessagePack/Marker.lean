import Invalidation.Reader
import Invalidation.Schema

/-! The first byte of a MessagePack value, which tells its type and often its length or value, and
what can go wrong with a document.
-/

namespace Invalidation.MessagePack

/-- The types of values that a first byte announces. A count in the constructor is the number of
bytes of the length or of the number that follow; the other arguments are in the byte itself.
-/
inductive Marker where
  | positive (value : Nat)
  | negative (magnitude : Nat)
  | shortMap (count : Nat)
  | shortArray (count : Nat)
  | shortText (length : Nat)
  | nil
  | reserved
  | boolean (value : Bool)
  | binary (bytes : Nat)
  | extension (bytes : Nat)
  | fixedExtension (length : Nat)
  | floating (bytes : Nat)
  | unsigned (bytes : Nat)
  | signed (bytes : Nat)
  | text (bytes : Nat)
  | array (bytes : Nat)
  | map (bytes : Nat)
deriving DecidableEq

namespace Marker

/-- The type that a first byte announces. -/
def ofByte (b : UInt8)
    : Marker :=
  let n := b.toNat
  if n < 0x80 then positive n
  else if n < 0x90 then shortMap (n - 0x80)
  else if n < 0xA0 then shortArray (n - 0x90)
  else if n < 0xC0 then shortText (n - 0xA0)
  else if n = 0xC0 then nil
  else if n = 0xC1 then reserved
  else if n < 0xC4 then boolean (n = 0xC3)
  else if n < 0xC7 then binary (1 <<< (n - 0xC4))
  else if n < 0xCA then extension (1 <<< (n - 0xC7))
  else if n < 0xCC then floating (1 <<< (n - 0xC8))
  else if n < 0xD0 then unsigned (1 <<< (n - 0xCC))
  else if n < 0xD4 then signed (1 <<< (n - 0xD0))
  else if n < 0xD9 then fixedExtension (1 <<< (n - 0xD4))
  else if n < 0xDC then text (1 <<< (n - 0xD9))
  else if n < 0xDE then array (1 <<< (n - 0xDB))
  else if n < 0xE0 then map (1 <<< (n - 0xDD))
  else negative (0x100 - n)

/-- The name of a type, in messages. Widths are named by their bits, except that those of extensions
of a fixed length are named by it.
-/
def name : Marker → String
  | positive value => s!"FixPos({value})"
  | negative magnitude => s!"FixNeg(-{magnitude})"
  | shortMap count => s!"FixMap({count})"
  | shortArray count => s!"FixArray({count})"
  | shortText length => s!"FixStr({length})"
  | nil => "Null"
  | reserved => "Reserved"
  | boolean true => "True"
  | boolean false => "False"
  | binary bytes => s!"Bin{8 * bytes}"
  | extension bytes => s!"Ext{8 * bytes}"
  | fixedExtension length => s!"FixExt{length}"
  | floating bytes => s!"F{8 * bytes}"
  | unsigned bytes => s!"U{8 * bytes}"
  | signed bytes => s!"I{8 * bytes}"
  | text bytes => s!"Str{8 * bytes}"
  | array bytes => s!"Array{8 * bytes}"
  | map bytes => s!"Map{8 * bytes}"

end Marker

/-- Why a document was refused. -/
inductive Failure where
  /-- The document ends where a value has to start. -/
  | noMarker
  /-- The document ends within a number or a length. -/
  | shortNumber
  /-- The document ends within the contents of a text, a binary value or an extension. -/
  | shortContents
  | wrongMarker (marker : Marker)
  /-- An array or a map has a number of elements that does not fit. -/
  | wrongLength (count : Nat)
  /-- The document is well formed up to there and does not have the shape asked for. -/
  | data (fault : Fault)
  | notUtf8
  | tooDeep
deriving DecidableEq

def Failure.message : Failure → String
  | noMarker => "IO error while reading marker: failed to fill whole buffer"
  | shortNumber => "IO error while reading data: failed to fill whole buffer"
  | shortContents => "IO error while reading data: unexpected end of file"
  | wrongMarker marker => s!"wrong msgpack marker {marker.name}"
  | wrongLength count => s!"array had incorrect length, expected {count}"
  | data fault => fault.message
  | notUtf8 => "string found to be invalid utf8"
  | tooDeep => "depth limit exceeded"

def readMarker : Reader Failure Marker
  | [] => .error .noMarker
  | b :: rest => .ok (Marker.ofByte b, rest)

/-- The number that bytes spell, most significant first. -/
def ofBigEndian (bytes : Bytes)
    : Nat :=
  bytes.foldl (fun value b => value * 256 + b.toNat) 0

def readNumber (count : Nat) : Reader Failure Nat := fun bytes =>
  if bytes.length < count then .error .shortNumber
  else .ok (ofBigEndian (bytes.take count), bytes.drop count)

def readContents (length : Nat) : Reader Failure Bytes := fun bytes =>
  if bytes.length < length then .error .shortContents
  else .ok (bytes.take length, bytes.drop length)

/-- The number that so many bytes spell in two's complement. -/
def ofTwosComplement (count value : Nat)
    : Int :=
  if value < 1 <<< (8 * count - 1) then value else value - (1 <<< (8 * count) : Nat)

end Invalidation.MessagePack
