import Invalidation.MessagePack.Read
import Invalidation.MessagePack.Write
import Mathlib.Tactic.Ring

/-! Numbers, texts and the heads of arrays and maps are read back as they were written, whatever
follows them in the document.
-/

namespace Invalidation.MessagePack

variable {α β : Type}

/-- A reader takes exactly the given bytes off the front of any document, and gives the value. -/
def Reads (reader : Reader Failure α) (bytes : Bytes) (value : α) : Prop :=
  ∀ rest, reader (bytes ++ rest) = .ok (value, rest)

theorem Reads.pure (value : α) : Reads (pure value) [] value := fun _ => rfl

/-- Readers one after the other take bytes one after the other. -/
theorem Reads.bind {first : Reader Failure α} {next : α → Reader Failure β} {head tail : Bytes}
    {middle : α} {value : β} (before : Reads first head middle)
    (after : Reads (next middle) tail value)
    : Reads (first >>= next) (head ++ tail) value := by
  intro rest
  have step : (first >>= next) (head ++ (tail ++ rest)) = next middle (tail ++ rest) := by
    simp only [Bind.bind, StateT.bind, before (tail ++ rest), Except.bind]
  rw [List.append_assoc, step, after rest]

/-- A reader that only looks at what another one read takes the same bytes. -/
theorem Reads.then {first : Reader Failure α} {next : α → Reader Failure β} {bytes : Bytes}
    {middle : α} {value : β} (before : Reads first bytes middle)
    (after : Reads (next middle) [] value)
    : Reads (first >>= next) bytes value := by
  rw [← List.append_nil bytes]
  exact before.bind after

theorem Reads.map {reader : Reader Failure α} {bytes : Bytes} {value : α}
    (reads : Reads reader bytes value) (f : α → β)
    : Reads (f <$> reader) bytes (f value) := by
  intro rest
  simp only [Functor.map, StateT.map, Bind.bind, reads rest, Except.bind, Pure.pure, Except.pure]

/-- A reader tells a value from what stands at the front, and takes nothing. -/
def Sees (reader : Reader Failure α) (bytes : Bytes) (value : α) : Prop :=
  ∀ rest, reader (bytes ++ rest) = .ok (value, bytes ++ rest)

theorem Sees.append {reader : Reader Failure α} {bytes : Bytes} {value : α}
    (sees : Sees reader bytes value) (more : Bytes)
    : Sees reader (bytes ++ more) value := by
  intro rest
  rw [List.append_assoc]
  exact sees (more ++ rest)

theorem Sees.bind {first : Reader Failure α} {next : α → Reader Failure β} {bytes : Bytes}
    {middle : α} {value : β} (before : Sees first bytes middle)
    (after : Reads (next middle) bytes value)
    : Reads (first >>= next) bytes value := by
  intro rest
  have step : (first >>= next) (bytes ++ rest) = next middle (bytes ++ rest) := by
    simp only [Bind.bind, StateT.bind, before rest, Except.bind]
  rw [step, after rest]

-----------------------------------------------------------------------------------------
-- Numbers and contents
-----------------------------------------------------------------------------------------

theorem length_bigEndian (count value : Nat) : (bigEndian count value).length = count := by
  induction count with
  | zero => rfl
  | succ count ih => rw [bigEndian, List.length_cons, ih]

/-- Reading digits goes on from the number that the digits before them spell, by induction on how
many there are.
-/
theorem foldl_bigEndian (count value start : Nat)
    : (bigEndian count value).foldl (fun number b => number * 256 + b.toNat) start
      = start * 256 ^ count + value % 256 ^ count := by
  induction count generalizing start with
  | zero => simp [bigEndian, Nat.mod_one]
  | succ count ih =>
      have digit : (value >>> (8 * count)).toUInt8.toNat = value / 256 ^ count % 256 := by
        rw [Nat.shiftRight_eq_div_pow, Nat.pow_mul]
        rfl
      rw [bigEndian, List.foldl_cons, ih, digit, Nat.mod_pow_succ]
      ring

theorem ofBigEndian_bigEndian {count value : Nat} (small : value < 256 ^ count)
    : ofBigEndian (bigEndian count value) = value := by
  rw [ofBigEndian, foldl_bigEndian, Nat.zero_mul, Nat.zero_add, Nat.mod_eq_of_lt small]

theorem reads_number {count value : Nat} (small : value < 256 ^ count)
    : Reads (readNumber count) (bigEndian count value) value := by
  intro rest
  have enough : ¬(bigEndian count value ++ rest).length < count := by
    rw [List.length_append, length_bigEndian]
    omega
  rw [readNumber, if_neg enough, List.take_left' (length_bigEndian count value),
    List.drop_left' (length_bigEndian count value), ofBigEndian_bigEndian small]

theorem reads_contents (contents : Bytes)
    : Reads (readContents contents.length) contents contents := by
  intro rest
  have enough : ¬(contents ++ rest).length < contents.length := by
    rw [List.length_append]
    omega
  rw [readContents, if_neg enough, List.take_left, List.drop_left]

-----------------------------------------------------------------------------------------
-- First bytes
-----------------------------------------------------------------------------------------

theorem reads_marker (b : UInt8) : Reads readMarker [b] (Marker.ofByte b) := fun _ => rfl

theorem toNat_marker {first count : Nat} (small : first + count < 0x100)
    : (marker first count).toNat = first + count := by
  rw [marker, Nat.toUInt8_eq, UInt8.toNat_ofNat']
  exact Nat.mod_eq_of_lt small

theorem ofByte_positive {value : Nat} (small : value < 0x80)
    : Marker.ofByte (marker 0 value) = .positive value := by
  simp only [Marker.ofByte, toNat_marker (show 0 + value < 0x100 by omega), Nat.zero_add, small,
    ↓reduceIte]

theorem ofByte_shortMap {count : Nat} (small : count < 0x10)
    : Marker.ofByte (marker 0x80 count) = .shortMap count := by
  have first : ¬0x80 + count < 0x80 := by omega
  have second : 0x80 + count < 0x90 := by omega
  simp only [Marker.ofByte, toNat_marker (show 0x80 + count < 0x100 by omega), first, second,
    ↓reduceIte, Nat.add_sub_cancel_left]

theorem ofByte_shortArray {count : Nat} (small : count < 0x10)
    : Marker.ofByte (marker 0x90 count) = .shortArray count := by
  have first : ¬0x90 + count < 0x80 := by omega
  have second : ¬0x90 + count < 0x90 := by omega
  have third : 0x90 + count < 0xA0 := by omega
  simp only [Marker.ofByte, toNat_marker (show 0x90 + count < 0x100 by omega), first, second,
    third, ↓reduceIte, Nat.add_sub_cancel_left]

theorem ofByte_shortText {length : Nat} (small : length < 0x20)
    : Marker.ofByte (marker 0xA0 length) = .shortText length := by
  have first : ¬0xA0 + length < 0x80 := by omega
  have second : ¬0xA0 + length < 0x90 := by omega
  have third : ¬0xA0 + length < 0xA0 := by omega
  have fourth : 0xA0 + length < 0xC0 := by omega
  simp only [Marker.ofByte, toNat_marker (show 0xA0 + length < 0x100 by omega), first, second,
    third, fourth, ↓reduceIte, Nat.add_sub_cancel_left]

-----------------------------------------------------------------------------------------
-- Heads of values
-----------------------------------------------------------------------------------------

theorem reads_unsigned {b : UInt8} {count value : Nat}
    (announced : Marker.ofByte b = .unsigned count) (small : value < 256 ^ count)
    : Reads nextPlain (b :: bigEndian count value) (.natural value) := by
  refine (reads_marker b).bind ?_
  rw [announced]
  exact (reads_number small).then (.pure _)

/-- A natural number is read back, whichever of its forms is the shortest. -/
theorem reads_natural {value : Nat} (small : value < 2 ^ 64)
    : Reads nextPlain (writeNatural value) (.natural value) := by
  unfold writeNatural
  split
  · rename_i within
    refine (reads_marker _).then ?_
    rw [ofByte_positive within]
    exact .pure _
  · split
    · rename_i within
      exact reads_unsigned rfl within
    · split
      · rename_i within
        exact reads_unsigned rfl within
      · split
        · rename_i within
          exact reads_unsigned rfl within
        · exact reads_unsigned rfl small

theorem reads_boolean (value : Bool)
    : Reads nextPlain [if value then 0xC3 else 0xC2] (.boolean value) := by
  cases value <;> exact (reads_marker _).then (.pure _)

variable {depth : Nat}

theorem reads_longText {b : UInt8} {count : Nat} {contents : Bytes}
    (announced : Marker.ofByte b = .text count) (small : contents.length < 256 ^ count)
    : Reads (nextHead depth) (b :: bigEndian count contents.length ++ contents)
        (.text contents) := by
  refine (reads_marker b).bind ?_
  rw [announced]
  exact (reads_number small).bind ((reads_contents contents).then (.pure _))

/-- A text is read back, whichever of its forms is the shortest. -/
theorem reads_text {text : String} (small : (Bytes.ofText text).length < 2 ^ 32)
    : Reads (nextHead depth) (writeText text) (.text (Bytes.ofText text)) := by
  unfold writeText
  dsimp only
  split
  · rename_i within
    refine (reads_marker _).bind ?_
    rw [ofByte_shortText within]
    exact (reads_contents _).then (.pure _)
  · split
    · rename_i within
      exact reads_longText rfl within
    · split
      · rename_i within
        exact reads_longText rfl within
      · exact reads_longText rfl small

/-- A head whose elements are a level deeper is read where levels are left. -/
theorem reads_deeper (deep : 1 < depth) (head : Head)
    : Reads (deeper depth head) [] head := by
  rw [deeper, if_neg (Nat.not_le.2 deep)]
  exact .pure head

/-- A count in bytes of its own is read as the head that it announces. -/
theorem reads_count {b : UInt8} {width count : Nat} {make : Nat → Head}
    (announced
      : readHead depth (Marker.ofByte b) = readNumber width >>= fun n => deeper depth (make n))
    (small : count < 256 ^ width) (deep : 1 < depth)
    : Reads (nextHead depth) (b :: bigEndian width count) (make count) := by
  refine (reads_marker b).bind ?_
  rw [announced]
  exact (reads_number small).then (reads_deeper deep _)

theorem reads_arrayHead {count : Nat} (small : count < 2 ^ 32) (deep : 1 < depth)
    : Reads (nextHead depth) (arrayHead count) (.array count) := by
  unfold arrayHead
  split
  · rename_i within
    refine (reads_marker _).then ?_
    rw [ofByte_shortArray within]
    exact reads_deeper deep _
  · split
    · rename_i within
      exact reads_count rfl within deep
    · exact reads_count rfl small deep

theorem reads_mapHead {count : Nat} (small : count < 2 ^ 32) (deep : 1 < depth)
    : Reads (nextHead depth) (mapHead count) (.map count) := by
  unfold mapHead
  split
  · rename_i within
    refine (reads_marker _).then ?_
    rw [ofByte_shortMap within]
    exact reads_deeper deep _
  · split
    · rename_i within
      exact reads_count rfl within deep
    · exact reads_count rfl small deep

-----------------------------------------------------------------------------------------
-- Telling values apart by their first byte
-----------------------------------------------------------------------------------------

theorem sees_something {b : UInt8} {tail : Bytes} (announced : Marker.ofByte b ≠ .nil)
    : Sees readNil (b :: tail) false := by
  intro rest
  rw [List.cons_append, readNil, if_neg announced]

/-- What is read as something other than nil is not nil. -/
theorem Reads.sees {bytes : Bytes} {head : Head} (reads : Reads (nextHead depth) bytes head)
    (something : head ≠ .nil)
    : Sees readNil bytes false := by
  cases bytes with
  | nil => cases reads []
  | cons b tail =>
      refine sees_something fun announced => something ?_
      have read : readHead depth (Marker.ofByte b) (tail ++ []) = .ok (head, []) := reads []
      rw [announced] at read
      exact (Prod.mk.inj (Except.ok.inj read)).1.symm

theorem Reads.sees_of_plain {bytes : Bytes} {head : Head} (reads : Reads nextPlain bytes head)
    (something : head ≠ .nil)
    : Sees readNil bytes false := by
  cases bytes with
  | nil => cases reads []
  | cons b tail =>
      refine sees_something fun announced => something ?_
      have read := reads []
      simp only [List.cons_append, nextPlain, Bind.bind, StateT.bind, readMarker, Except.bind,
        announced] at read
      exact (Prod.mk.inj (Except.ok.inj read)).1.symm

/-- Where a text stands, no map is announced. -/
theorem sees_noMap (text : String) : Sees readMapCount? (writeText text) none := by
  intro rest
  unfold writeText
  dsimp only
  split
  · rename_i within
    simp only [List.cons_append, readMapCount?, ofByte_shortText within]
  · split
    · rfl
    · split <;> rfl

theorem reads_mapCount {count : Nat} (small : count < 0x10)
    : Reads readMapCount? (mapHead count) (some count) := by
  intro rest
  rw [mapHead, if_pos small, List.cons_append, readMapCount?, ofByte_shortMap small]
  rfl

end Invalidation.MessagePack
