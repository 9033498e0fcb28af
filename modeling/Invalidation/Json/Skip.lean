import Invalidation.Json.Number
import Invalidation.Json.Quoted

/-! Values that nobody asked for are passed over: their grammar is checked, at any depth of nesting,
and nothing else about them.
-/

namespace Invalidation.Json

/-- Reads a value that has no parts, from its first byte, with the given readers of strings and
numbers. A bracket is no such value.
-/
def readScalar (string number : Bytes → Except Failure Bytes)
    : Bytes → Except Failure Bytes
  | [] => .error .truncated
  | b :: rest =>
      if b = quote then string rest
      else if b = minus || isDigit b then number (b :: rest)
      else if b = letter 'n' then readWord afterN rest
      else if b = letter 't' then readWord afterT rest
      else if b = letter 'f' then readWord afterF rest
      else .error .malformed

/-- A bracket that was opened and not yet closed. -/
inductive Frame where
  | list
  | object
deriving DecidableEq

def Frame.close : Frame → UInt8
  | list => closeList
  | object => closeObject

/-- Where a text stands between two tokens of a value that is passed over. -/
inductive Position where
  /-- A value has to start. -/
  | value
  /-- A bracket was just opened. -/
  | opened
  /-- A value has just ended. -/
  | ended

/-- Passes over what stands before a value of the innermost frame: a name and a colon in an object,
nothing in a list.
-/
def Frame.skipName : Frame → Bytes → Except Failure Bytes
  | list, bytes => .ok bytes
  | object, bytes =>
      match skipBlank bytes with
      | [] => .error .truncated
      | quote :: rest => do
          match skipBlank (← Quoted.skip rest) with
          | [] => .error .truncated
          | colon :: rest => .ok rest
          | _ => .error .malformed
      | _ => .error .malformed

/-- Passes over the rest of a value inside the given frames, innermost first. -/
def skipWithin : Nat → Position → List Frame → Bytes → Except Failure Bytes
  | 0, _, _, _ => .error .truncated
  | _ + 1, .ended, [], bytes => .ok bytes
  | fuel + 1, .value, frames, bytes =>
      match skipBlank bytes with
      | openList :: rest => skipWithin fuel .opened (.list :: frames) rest
      | openObject :: rest => skipWithin fuel .opened (.object :: frames) rest
      | bytes => do
          skipWithin fuel .ended frames (← readScalar Quoted.skip Number.skip bytes)
  | _ + 1, .opened, [], _ => .error .malformed
  | fuel + 1, .opened, frame :: frames, bytes =>
      match skipBlank bytes with
      | [] => .error .truncated
      | b :: rest =>
          if b = frame.close then skipWithin fuel .ended frames rest
          else do
            skipWithin fuel .value (frame :: frames) (← frame.skipName (b :: rest))
  | fuel + 1, .ended, frame :: frames, bytes =>
      match skipBlank bytes with
      | [] => .error .truncated
      | b :: rest =>
          if b = frame.close then skipWithin fuel .ended frames rest
          else if b = comma then do
            skipWithin fuel .value (frame :: frames) (← frame.skipName rest)
          else .error .malformed

/-- Passes over one value. A step consumes a byte or is followed by one that does, so twice the
length of the text is fuel enough.
-/
def skipValue (bytes : Bytes)
    : Except Failure Bytes :=
  skipWithin (2 * bytes.length + 2) .value [] bytes

end Invalidation.Json
