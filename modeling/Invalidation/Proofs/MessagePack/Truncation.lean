import Invalidation.MessagePack.Read
import Invalidation.Proofs.Except
import Invalidation.Proofs.MessagePack.RoundTrip

/-! What a reader makes of a document is settled by the bytes that it consumed. Bytes that are added
behind them change nothing, and bytes that are taken away from them are missed: a document that is
cut short is never read as another one.
-/

namespace Invalidation.MessagePack

/-- The document ends before what was begun in it does. -/
def Failure.endsEarly : Failure → Bool
  | noMarker | shortNumber | shortContents => true
  | _ => false

variable {α β : Type}

/-- What a reader makes of a document stays when bytes are added behind it: a value is read again,
with the added bytes left over as well, and a failure stays unless the document ended too early.
-/
structure Steady (reader : Reader Failure α) : Prop where
  value
    : ∀ {bytes value rest},
        reader bytes = .ok (value, rest)
        → ∀ more, reader (bytes ++ more) = .ok (value, rest ++ more)
  failure
    : ∀ {bytes failure},
        reader bytes = .error failure
        → failure.endsEarly = false
        → ∀ more, reader (bytes ++ more) = .error failure

namespace Steady

theorem pure (value : α) : Steady (pure value) where
  value read more := by
    obtain ⟨rfl, rfl⟩ := Prod.mk.inj (Except.ok.inj read)
    rfl
  failure failed := nomatch failed

theorem throw (failure : Failure) : Steady (throw failure : Reader Failure α) where
  value read := nomatch read
  failure failed _ more := by
    obtain rfl := Except.error.inj failed
    rfl

theorem lift (outcome : Except Failure α) : Steady (liftM outcome : Reader Failure α) := by
  cases outcome with
  | ok value => exact pure value
  | error failure => exact throw failure

/-- Readers one after the other are steady if each of them is, whatever the first one reads. -/
theorem bind {first : Reader Failure α} {next : α → Reader Failure β} (before : Steady first)
    (after : ∀ value, Steady (next value))
    : Steady (first >>= next) where
  value {bytes value rest} read more := by
    obtain ⟨⟨middle, left⟩, head, tail⟩ := bind_eq_ok.1 read
    exact bind_eq_ok.2 ⟨_, before.value head more, (after middle).value tail more⟩
  failure {bytes failure} failed late more := by
    rcases bind_eq_error.1 failed with head | ⟨⟨middle, left⟩, head, tail⟩
    · exact bind_eq_error.2 (.inl (before.failure head late more))
    · exact bind_eq_error.2
        (.inr ⟨_, before.value head more, (after middle).failure tail late more⟩)

theorem map {reader : Reader Failure α} (steady : Steady reader) (f : α → β)
    : Steady (f <$> reader) :=
  steady.bind fun value => pure (f value)

end Steady

-----------------------------------------------------------------------------------------
-- Bytes
-----------------------------------------------------------------------------------------

/-- A reader that goes on by the first byte is steady if it goes on so. -/
theorem steady_firstByte {next : UInt8 → Reader Failure α} (each : ∀ b, Steady (next b))
    : Steady fun bytes =>
        match bytes with
        | [] => .error .noMarker
        | b :: rest => next b rest where
  value {bytes value rest} read more := by
    cases bytes with
    | nil => cases read
    | cons b tail => exact (each b).value read more
  failure {bytes failure} failed late more := by
    cases bytes with
    | nil =>
        obtain rfl := Except.error.inj failed
        cases late
    | cons b tail => exact (each b).failure failed late more

/-- A value may be told with a byte left in front of the others. -/
theorem steady_leave (value : α) (b : UInt8)
    : Steady fun rest => (.ok (value, b :: rest) : Except Failure (α × Bytes)) where
  value read more := by
    obtain ⟨rfl, rfl⟩ := Prod.mk.inj (Except.ok.inj read)
    rfl
  failure failed := nomatch failed

/-- Taking so many bytes is steady, where having fewer is a failure for the document's end. -/
theorem steady_take (count : Nat) (make : Bytes → α) {short : Failure}
    (early : short.endsEarly = true)
    : Steady fun bytes =>
        if bytes.length < count then .error short
        else .ok (make (bytes.take count), bytes.drop count) where
  value {bytes value rest} read more := by
    split at read
    · cases read
    · rename_i enough
      obtain ⟨rfl, rfl⟩ := Prod.mk.inj (Except.ok.inj read)
      have enough : count ≤ bytes.length := Nat.not_lt.1 enough
      rw [if_neg (by rw [List.length_append]; omega), List.take_append_of_le_length enough,
        List.drop_append_of_le_length enough]
  failure {bytes failure} failed late more := by
    split at failed
    · obtain rfl := Except.error.inj failed
      rw [early] at late
      cases late
    · cases failed

theorem steady_readMarker : Steady readMarker :=
  steady_firstByte fun b => .pure (Marker.ofByte b)

theorem steady_readNumber (count : Nat) : Steady (readNumber count) :=
  steady_take count ofBigEndian rfl

theorem steady_readContents (length : Nat) : Steady (readContents length) :=
  steady_take length id rfl

theorem steady_readNil : Steady readNil := by
  refine steady_firstByte fun b => ?_
  by_cases absent : Marker.ofByte b = .nil
  · simp only [if_pos absent]
    exact .pure true
  · simp only [if_neg absent]
    exact steady_leave false b

theorem steady_readMapCount? : Steady readMapCount? := by
  refine steady_firstByte fun b => ?_
  cases Marker.ofByte b with
  | shortMap count => exact .pure (some count)
  | map width => exact (steady_readNumber width).map some
  | _ => exact steady_leave none b

-----------------------------------------------------------------------------------------
-- Values without elements
-----------------------------------------------------------------------------------------

theorem steady_deeper (depth : Nat) (head : Head) : Steady (deeper depth head) := by
  unfold deeper
  split
  · exact .throw _
  · exact .pure head

theorem steady_readHead (depth : Nat) (marker : Marker) : Steady (readHead depth marker) := by
  cases marker with
  | positive | negative | nil | boolean => exact .pure _
  | reserved => exact .throw _
  | unsigned bytes | signed bytes | floating bytes =>
      exact (steady_readNumber bytes).bind fun _ => .pure _
  | shortText length => exact (steady_readContents length).bind fun _ => .pure _
  | text bytes | binary bytes =>
      exact (steady_readNumber bytes).bind fun length =>
        (steady_readContents length).bind fun _ => .pure _
  | shortArray | shortMap | fixedExtension => exact steady_deeper depth _
  | array bytes | map bytes | extension bytes =>
      exact (steady_readNumber bytes).bind fun _ => steady_deeper depth _

theorem steady_nextHead (depth : Nat) : Steady (nextHead depth) :=
  steady_readMarker.bind fun marker => steady_readHead depth marker

theorem steady_nextPlain : Steady nextPlain := by
  refine steady_readMarker.bind fun marker => ?_
  cases marker with
  | positive | negative | nil | boolean | unsigned | signed | floating =>
      exact steady_readHead depthLimit _
  | _ => exact .throw _

theorem steady_readNatural (width : Width) : Steady (readNatural width) := by
  refine steady_nextPlain.bind fun head => ?_
  split
  · split
    · exact .pure _
    · exact .throw _
  · split
    · exact .pure _
    · exact .throw _
  · exact .throw _

theorem steady_readBoolean : Steady readBoolean := by
  refine steady_nextPlain.bind fun head => ?_
  split
  · exact .pure _
  · exact .throw _

theorem steady_readText (depth : Nat) : Steady (readText depth) := by
  refine (steady_nextHead depth).bind fun head => ?_
  split
  · split
    · exact .pure _
    · exact .throw _
  · split
    · exact .pure _
    · exact .throw _
  · exact .throw _

theorem steady_expectNil : Steady expectNil := by
  refine steady_readMarker.bind fun marker => ?_
  split
  · exact .pure _
  · exact .throw _

theorem steady_readFieldLabel (depth : Nat) : Steady (readFieldLabel depth) := by
  refine (steady_nextHead depth).bind fun head => ?_
  cases head with
  | natural value => exact .pure _
  | text bytes | binary bytes => exact .pure _
  | _ => exact .throw _

theorem steady_readVariantLabel (depth : Nat) : Steady (readVariantLabel depth) := by
  refine (steady_nextHead depth).bind fun head => ?_
  split
  · exact .pure _
  · split
    · exact .pure _
    · exact .throw _
  · exact .pure _
  · exact .throw _

-----------------------------------------------------------------------------------------
-- Values one after the other
-----------------------------------------------------------------------------------------

theorem steady_readMany {element : Reader Failure α} (each : Steady element) (count : Nat)
    : Steady (readMany element count) := by
  induction count with
  | zero => exact .pure []
  | succ count ih => exact each.bind fun _ => ih.bind fun _ => .pure _

theorem steady_skipMany {skip : Reader Failure Unit} (each : Steady skip) (count : Nat)
    : Steady (skipMany skip count) := by
  induction count with
  | zero => exact .pure ()
  | succ count ih => exact each.bind fun _ => ih

theorem steady_readMembers {σ : Type} {member : σ → Reader Failure σ}
    (each : ∀ slots, Steady (member slots)) (count : Nat) (slots : σ)
    : Steady (readMembers member count slots) := by
  induction count generalizing slots with
  | zero => exact .pure slots
  | succ count ih => exact (each slots).bind ih

theorem steady_readSlot {name : String} {slot : Option α} {value : Reader Failure α}
    (steady : Steady value)
    : Steady (readSlot name slot value) := by
  unfold readSlot
  split
  · exact (Steady.throw _).bind fun _ => steady.bind fun _ => .pure _
  · exact steady.bind fun _ => .pure _

/-- Passing over a value is steady, by induction on the levels that are left. -/
theorem steady_skip (depth : Nat) : Steady (skip depth) := by
  induction depth with
  | zero => exact .throw _
  | succ depth ih =>
      refine (steady_nextHead _).bind fun head => ?_
      split
      · exact steady_skipMany ih _
      · exact steady_skipMany ih _
      · exact (steady_readNumber 1).bind fun _ =>
          (steady_readContents _).bind fun _ => .pure _
      · exact .pure _

theorem steady_optional {reader : Reader Failure α} (steady : Steady reader)
    : Steady do
        if ← readNil then return none
        return some (← reader) := by
  refine steady_readNil.bind fun absent => ?_
  split
  · exact .pure none
  · exact steady.bind fun _ => .pure _

/-- A value in front of the fields that are read after it. -/
theorem steady_prepend {fields : Reader Failure (β × Nat)} (steady : Steady fields) (head : α)
    : Steady do
        let (tail, left) ← fields
        return ((head, tail), left) :=
  steady.bind fun _ => .pure _

-----------------------------------------------------------------------------------------
-- All schemas
-----------------------------------------------------------------------------------------

mutual

/-- Reading a value is steady, whatever its schema, by induction on it. -/
theorem steady_read {α : Type} (schema : Schema α) (depth : Nat) : Steady (read schema depth) := by
  match schema with
  | .natural width =>
      rw [read]
      exact steady_readNatural width
  | .boolean =>
      rw [read]
      exact steady_readBoolean
  | .text =>
      rw [read]
      exact steady_readText depth
  | .optional inner =>
      rw [read]
      exact steady_optional (steady_read inner depth)
  | .sequence element =>
      rw [read]
      refine (steady_nextHead depth).bind fun head => ?_
      split
      · exact steady_readMany (steady_read element (depth - 1)) _
      · exact .lift _
      · exact .throw _
  | .exactly count element =>
      rw [read]
      refine (steady_nextHead depth).bind fun head => ?_
      split
      · refine (steady_readMany (steady_read element (depth - 1)) _).bind fun values => ?_
        split
        · exact .throw _
        · split
          · exact .throw _
          · exact .pure _
      · refine (Steady.lift _).bind fun values => ?_
        split
        · exact .throw _
        · exact .pure _
      · exact .throw _
  | .choice name variants =>
      rw [read]
      refine steady_readMapCount?.bind fun count? => ?_
      split
      · exact (steady_readVariantLabel depth).bind fun label =>
          steady_readVariant variants _ label true depth
      · exact .throw _
      · exact (steady_readVariantLabel depth).bind fun label =>
          steady_readVariant variants _ label false depth
  | .record name fields make parts make_parts =>
      rw [read]
      refine (steady_nextHead depth).bind fun head => ?_
      split
      · refine (steady_readFields fields _ 0 _ (depth - 1)).bind fun ⟨values, left⟩ => ?_
        dsimp only
        split
        · exact .pure _
        · exact .throw _
      · refine (steady_readMembers (fun slots => (steady_readFieldLabel (depth - 1)).bind
          fun label => steady_readMember fields label slots (depth - 1)) _ _).bind fun slots => ?_
        split
        · exact .pure _
        · exact .throw _
      · exact (Steady.lift _).bind fun _ => .pure _
      · exact .throw _

theorem steady_readFields {β σ : Type} (fields : Fields β σ) (expected : String)
    (index left depth : Nat)
    : Steady (readFields fields expected index left depth) := by
  match fields with
  | .nil => exact .pure _
  | .required name value rest =>
      rw [readFields]
      have later := steady_readFields rest expected (index + 1) (left - 1) depth
      have elements := (steady_read value depth).bind fun head => steady_prepend later head
      split
      · exact (Steady.throw _).bind fun _ => elements
      · exact elements
  | .defaulted name value standard rest =>
      rw [readFields]
      have later := steady_readFields rest expected (index + 1) (left - 1) depth
      split
      · exact (Steady.pure standard).bind fun head => steady_prepend later head
      · exact (steady_read value depth).bind fun head => steady_prepend later head
  | .omissible name value rest =>
      rw [readFields]
      have later := steady_readFields rest expected (index + 1) (left - 1) depth
      have elements (absent : Bool)
          : Steady (do
              let head ← if absent then pure none else some <$> read value depth
              let (tail, left) ← readFields rest expected (index + 1) (left - 1) depth
              return ((head, tail), left)) := by
        cases absent with
        | true => exact (Steady.pure none).bind fun head => steady_prepend later head
        | false =>
            exact ((steady_read value depth).map some).bind fun head => steady_prepend later head
      split
      · exact (Steady.pure true).bind elements
      · exact steady_readNil.bind elements

theorem steady_readMember {β σ : Type} (fields : Fields β σ) (label : Label) (slots : σ)
    (depth : Nat)
    : Steady (readMember fields label slots depth) := by
  match fields, slots with
  | .nil, () => exact steady_skip depth
  | .required name value rest, (slot, slots) =>
      rw [readMember]
      split
      · exact (steady_readSlot (steady_read value depth)).bind fun _ => .pure _
      · exact (steady_readMember rest label.tail slots depth).bind fun _ => .pure _
  | .defaulted name value standard rest, (slot, slots) =>
      rw [readMember]
      split
      · exact (steady_readSlot (steady_read value depth)).bind fun _ => .pure _
      · exact (steady_readMember rest label.tail slots depth).bind fun _ => .pure _
  | .omissible name value rest, (slot, slots) =>
      rw [readMember]
      split
      · exact (steady_readSlot (steady_optional (steady_read value depth))).bind fun _ => .pure _
      · exact (steady_readMember rest label.tail slots depth).bind fun _ => .pure _

theorem steady_readVariant {α : Type} (variants : Variants α) (known : List String)
    (label : Label) (payload : Bool) (depth : Nat)
    : Steady (readVariant variants known label payload depth) := by
  match variants with
  | .nil =>
      rw [readVariant]
      exact .throw _
  | .bare name value test eq_of_test rest =>
      rw [readVariant]
      split
      · split
        · exact steady_expectNil.bind fun _ => .pure _
        · exact .pure value
      · exact steady_readVariant rest known label.tail payload depth
  | .carrying name inner wrap unwrap? wrap_unwrap rest =>
      rw [readVariant]
      split
      · split
        · exact (steady_read inner depth).bind fun _ => .pure _
        · exact .throw _
      · exact steady_readVariant rest known label.tail payload depth

end

-----------------------------------------------------------------------------------------
-- Documents with more or fewer bytes
-----------------------------------------------------------------------------------------

/-- A document that is read to its end is missed as soon as bytes are taken from its end: what a
reader makes of the shorter document would stay when they are put back.
-/
theorem Steady.endsEarly_of_take {reader : Reader Failure α} (steady : Steady reader)
    {bytes : Bytes} {value : α} (read : reader bytes = .ok (value, [])) {count : Nat}
    (cut : count < bytes.length)
    : ∃ failure, failure.endsEarly = true ∧ reader (bytes.take count) = .error failure := by
  have whole := List.take_append_drop count bytes
  cases outcome : reader (bytes.take count) with
  | ok found =>
      obtain ⟨other, rest⟩ := found
      have again := steady.value outcome (bytes.drop count)
      rw [whole, read] at again
      have nothing : rest ++ bytes.drop count = [] := (Prod.mk.inj (Except.ok.inj again)).2.symm
      have short := List.drop_eq_nil_iff.1 (List.append_eq_nil_iff.1 nothing).2
      exact absurd cut (Nat.not_lt.2 short)
  | error failure =>
      cases late : failure.endsEarly with
      | true => exact ⟨failure, late, rfl⟩
      | false =>
          have again := steady.failure outcome late (bytes.drop count)
          rw [whole, read] at again
          cases again

theorem decode_append {schema : Schema α} {bytes rest : Bytes} {value : α}
    (decoded : decode schema bytes = .ok (value, rest)) (more : Bytes)
    : decode schema (bytes ++ more) = .ok (value, rest ++ more) :=
  (steady_read schema depthLimit).value decoded more

/-- A written value that the format holds cannot be decoded without its last bytes. -/
theorem decode_take_write {schema : Schema α} (named : Bool) (sound : schema.Sound depthLimit)
    {value : α} (holds : schema.Holds value) {count : Nat}
    (cut : count < (write named schema value).length)
    : ∃ failure,
        failure.endsEarly = true
        ∧ decode schema ((write named schema value).take count) = .error failure := by
  have whole := decode_write named sound holds []
  rw [List.append_nil] at whole
  exact (steady_read schema depthLimit).endsEarly_of_take whole cut

end Invalidation.MessagePack
