import Invalidation.Proofs.Json.Consumption

/-! Every text that is read, by whatever schema, is a text of a value. Nothing beyond the grammar is
accepted, neither where a value is asked for nor where one is passed over.
-/

namespace Invalidation.Json

-----------------------------------------------------------------------------------------
-- Values that are passed over
-----------------------------------------------------------------------------------------

/-- The tokens stand before a value of the frame. -/
def Frame.Name : Frame → List Bytes → Prop
  | .list, tokens => tokens = []
  | .object, tokens => ∃ parts, tokens = [Quoted.spelling parts, [colon]]

/-- The tokens stand behind the opening bracket of the frame, or behind a value in it, and close
it.
-/
def Frame.Inside : Frame → Bool → List Bytes → Prop
  | .list, first, tokens => ∃ values, tokens = elementTokens first values
  | .object, first, tokens => ∃ members, tokens = memberTokens first members

theorem Frame.inside_close (frame : Frame) (first : Bool)
    : frame.Inside first [[frame.close]] := by
  cases frame with
  | list => exact ⟨[], by simp [elementTokens, Frame.close]⟩
  | object => exact ⟨[], by simp [memberTokens, Frame.close]⟩

theorem Frame.Inside.cons {frame : Frame} {name tokens : List Bytes} (named : frame.Name name)
    (value : Value) (inside : frame.Inside false tokens) (first : Bool)
    : frame.Inside first ((if first then [] else [[comma]]) ++ name ++ value.tokens ++ tokens) := by
  cases frame with
  | list =>
      obtain rfl := named
      obtain ⟨values, rfl⟩ := inside
      exact ⟨value :: values, by simp [elementTokens]⟩
  | object =>
      obtain ⟨parts, rfl⟩ := named
      obtain ⟨members, rfl⟩ := inside
      exact ⟨(parts, value) :: members, by simp [memberTokens]⟩

/-- The tokens stand behind a value in the frames, innermost first, and close them all. -/
def Closes : List Frame → List Bytes → Prop
  | [], tokens => tokens = []
  | frame :: frames, tokens =>
      ∃ inside later, frame.Inside false inside ∧ Closes frames later ∧ tokens = inside ++ later

/-- The tokens lead from the position in the frames to the end of the outermost one. -/
def Remains : Position → List Frame → List Bytes → Prop
  | .value, frames, tokens =>
      ∃ (value : Value) (later : List Bytes), Closes frames later ∧ tokens = value.tokens ++ later
  | .opened, [], _ => False
  | .opened, frame :: frames, tokens =>
      ∃ inside later, frame.Inside true inside ∧ Closes frames later ∧ tokens = inside ++ later
  | .ended, frames, tokens => Closes frames tokens

theorem remains_iff {first : Bool} {frame : Frame} {frames : List Frame} {tokens : List Bytes}
    : Remains (if first then .opened else .ended) (frame :: frames) tokens
      ↔ ∃ inside later,
          frame.Inside first inside ∧ Closes frames later ∧ tokens = inside ++ later := by
  cases first <;> rfl

theorem remains_close (first : Bool) (frame : Frame) {frames : List Frame} {tokens : List Bytes}
    (closes : Closes frames tokens)
    : Remains (if first then .opened else .ended) (frame :: frames) ([frame.close] :: tokens) :=
  remains_iff.2 ⟨[[frame.close]], tokens, frame.inside_close first, closes, rfl⟩

theorem remains_cons (first : Bool) {frame : Frame} {frames : List Frame} {name tokens : List Bytes}
    (named : frame.Name name) (remains : Remains .value (frame :: frames) tokens)
    : Remains (if first then .opened else .ended) (frame :: frames)
        ((if first then [] else [[comma]]) ++ (name ++ tokens)) := by
  obtain ⟨value, _, ⟨inside, later, insideFrame, closes, rfl⟩, rfl⟩ := remains
  exact remains_iff.2 ⟨_, later, insideFrame.cons named value first, closes, by simp⟩

theorem exists_of_skipName {frame : Frame} {bytes rest : Bytes}
    (skipped : frame.skipName bytes = .ok rest)
    : ∃ name, frame.Name name ∧ Fronts name bytes rest := by
  cases frame with
  | list =>
      obtain rfl := Except.ok.inj skipped
      exact ⟨[], rfl, fronts_nil⟩
  | object =>
      rw [Frame.skipName] at skipped
      split at skipped
      · cases skipped
      · rename_i found
        obtain ⟨behind, skippedName, skipped⟩ := bind_eq_ok.1 skipped
        obtain ⟨parts, spelled⟩ := Quoted.exists_of_skip skippedName
        split at skipped
        · cases skipped
        · rename_i foundColon
          obtain rfl := Except.ok.inj skipped
          exact ⟨_, ⟨parts, rfl⟩,
            (fronts_token (found.trans spelled)).append (fronts_token foundColon)⟩
        · cases skipped
      · cases skipped

/-- A value without parts is passed over as one token. -/
theorem exists_of_readScalar {bytes rest : Bytes}
    (read : readScalar Quoted.skip Number.skip bytes = .ok rest)
    : ∃ (value : Value) (token : Bytes), value.tokens = [token] ∧ bytes = token ++ rest := by
  unfold readScalar at read
  split at read
  · cases read
  split at read
  · rename_i isQuote
    obtain ⟨parts, spelled⟩ := Quoted.exists_of_skip read
    exact ⟨.text parts, _, rfl, isQuote ▸ spelled⟩
  split at read
  · obtain ⟨numeral, spelled⟩ := Number.exists_of_skip read
    exact ⟨.number numeral, _, rfl, spelled⟩
  split at read
  · rename_i isNull
    exact ⟨.null, _, rfl, by rw [isNull, eq_of_readWord read]; rfl⟩
  split at read
  · rename_i isTrue
    exact ⟨.boolean true, _, rfl, by rw [isTrue, eq_of_readWord read]; rfl⟩
  split at read
  · rename_i isFalse
    exact ⟨.boolean false, _, rfl, by rw [isFalse, eq_of_readWord read]; rfl⟩
  · cases read

/-- What is passed over inside frames closes them, by induction on the steps. -/
theorem exists_of_skipWithin {fuel : Nat} {position : Position} {frames : List Frame}
    {bytes rest : Bytes} (skipped : skipWithin fuel position frames bytes = .ok rest)
    : ∃ tokens, Remains position frames tokens ∧ Fronts tokens bytes rest := by
  fun_induction skipWithin fuel position frames bytes with
  | case1 => cases skipped
  | case2 =>
      obtain rfl := Except.ok.inj skipped
      exact ⟨[], rfl, fronts_nil⟩
  | case3 fuel frames bytes behind found ih =>
      obtain ⟨_, ⟨_, later, ⟨values, rfl⟩, closes, rfl⟩, fronts⟩ := ih skipped
      exact ⟨_, ⟨.list values, later, closes, by rw [Value.tokens]; rfl⟩,
        (fronts_token found).append fronts⟩
  | case4 fuel frames bytes behind found ih =>
      obtain ⟨_, ⟨_, later, ⟨members, rfl⟩, closes, rfl⟩, fronts⟩ := ih skipped
      exact ⟨_, ⟨.object members, later, closes, by rw [Value.tokens]; rfl⟩,
        (fronts_token found).append fronts⟩
  | case5 fuel frames bytes noList noObject ih =>
      obtain ⟨behind, readScalar, skipped⟩ := bind_eq_ok.1 skipped
      obtain ⟨value, token, isToken, found⟩ := exists_of_readScalar readScalar
      obtain ⟨later, closes, fronts⟩ := ih behind skipped
      exact ⟨_, ⟨value, later, closes, by rw [isToken]⟩, (fronts_token found).append fronts⟩
  | case6 => cases skipped
  | case7 => cases skipped
  | case8 fuel frame frames bytes behind found ih =>
      obtain ⟨later, closes, fronts⟩ := ih skipped
      exact ⟨_, remains_close true frame closes, (fronts_token found).append fronts⟩
  | case9 fuel frame frames bytes b behind found noClose ih =>
      obtain ⟨atValue, skippedName, skipped⟩ := bind_eq_ok.1 skipped
      obtain ⟨name, named, frontsName⟩ := exists_of_skipName skippedName
      obtain ⟨tokens, remains, fronts⟩ := ih atValue skipped
      exact ⟨_, remains_cons true named remains,
        (found ▸ fronts_skipBlank : Fronts [] _ _).append (frontsName.append fronts)⟩
  | case10 => cases skipped
  | case11 fuel frame frames bytes behind found ih =>
      obtain ⟨later, closes, fronts⟩ := ih skipped
      exact ⟨_, remains_close false frame closes, (fronts_token found).append fronts⟩
  | case12 fuel frame frames bytes behind found noClose ih =>
      obtain ⟨atValue, skippedName, skipped⟩ := bind_eq_ok.1 skipped
      obtain ⟨name, named, frontsName⟩ := exists_of_skipName skippedName
      obtain ⟨tokens, remains, fronts⟩ := ih atValue skipped
      exact ⟨_, remains_cons false named remains,
        (fronts_token found).append (frontsName.append fronts)⟩
  | case13 => cases skipped

/-- A reader that passes over a value has found one. -/
theorem reads_skipValue
    : Reads (do set (← (skipValue (← get) : Except Failure Bytes))) fun _ => OfValue := by
  intro bytes _ rest read
  change StateT.bind (StateT.lift (skipValue bytes)) set bytes = _ at read
  cases skipped : skipValue bytes with
  | error failure =>
      rw [skipped] at read
      cases read
  | ok behind =>
      rw [skipped] at read
      obtain ⟨-, rfl⟩ := Prod.mk.inj (Except.ok.inj read)
      obtain ⟨_, ⟨value, _, rfl, rfl⟩, fronts⟩ := exists_of_skipWithin skipped
      exact ⟨_, ⟨value, (List.append_nil _).symm⟩, fronts⟩

-----------------------------------------------------------------------------------------
-- All schemas
-----------------------------------------------------------------------------------------

section

variable {α : Type}

theorem reads_mismatch {expected : String} {spelling : α → List Bytes → Prop}
    : Reads (do throw (mismatch expected (← get)) : Reader Failure α) spelling :=
  fun _ _ _ read => nomatch read

/-- A reader may first look at the text, to measure it. -/
theorem reads_get {readWith : Bytes → Reader Failure α} {spelling : α → List Bytes → Prop}
    (reads : ∀ bytes, Reads (readWith bytes) spelling)
    : Reads (get >>= readWith) spelling :=
  fun bytes value rest read => reads bytes bytes value rest read

/-- A reader that looks at the first byte may go on in several ways, each of which is spelled so. -/
theorem reads_byLead {next : UInt8 → Reader Failure α} {spelling : α → List Bytes → Prop}
    (reads : ∀ lead, Reads (next lead) spelling)
    : Reads (peek >>= next) spelling := by
  refine reads_peek.bind ?_
  rintro lead _ rfl
  exact reads lead

/-- Where a bracket is looked for, it is read with what it opens, or else something other is. -/
theorem reads_opened {lead opener : UInt8} {inside other : Reader Failure α}
    {spelling : α → List Bytes → Prop}
    (opened : Reads inside fun value tokens => spelling value ([opener] :: tokens))
    (otherwise : Reads other spelling)
    : Reads (if lead = opener then do readByte opener; inside else other) spelling := by
  split
  · refine (reads_readByte opener).bind ?_
    rintro _ _ rfl
    exact opened
  · exact otherwise

theorem ofValue_list (values : List Value) : OfValue ([openList] :: elementTokens true values) :=
  ⟨.list values, by rw [Value.tokens]⟩

theorem ofValue_object (members : Members) : OfValue ([openObject] :: memberTokens true members) :=
  ⟨.object members, by rw [Value.tokens]⟩

theorem reads_readSlot {reader : Reader Failure α} (reads : Reads reader fun _ => OfValue)
    (name : String) (slot : Option α)
    : Reads (readSlot name slot reader) fun _ tokens =>
        ∃ value : Value, tokens = [colon] :: value.tokens := by
  cases slot with
  | some full => exact fun _ _ _ read => nomatch read
  | none =>
      refine (reads_readByte colon).bind ?_
      rintro _ _ rfl
      refine reads.bind ?_
      rintro _ _ ⟨value, rfl⟩
      exact reads_pure ⟨value, by simp⟩

/-- Fields of a record that is written as a list are read one after the other; a part of the first
may have been read before.
-/
theorem reads_headAndTail {β : Type} {reader : Reader Failure α} {others : Reader Failure β}
    (front : List Bytes) (reads : Reads reader fun _ tokens => OfValue (front ++ tokens))
    (readsOthers
      : Reads others fun _ tokens =>
          ∃ values, tokens ++ [[closeList]] = elementTokens false values)
    : Reads (do let head ← reader; return (head, ← others)) fun _ tokens =>
        ∃ (value : Value) (values : List Value),
          front ++ tokens ++ [[closeList]] = value.tokens ++ elementTokens false values := by
  refine reads.bind ?_
  rintro head back ⟨value, spelled⟩
  refine readsOthers.bind ?_
  rintro tail _ ⟨values, spelledToo⟩
  exact reads_pure ⟨value, values, by simp [← spelledToo, spelled]⟩

/-- The reader takes nothing from the bytes. -/
def Stays (reader : Reader Failure α) (bytes : Bytes) : Prop :=
  ∀ value rest, reader bytes = .ok (value, rest) → rest = bytes

theorem Stays.map {β : Type} {reader : Reader Failure α} {bytes : Bytes}
    (stays : Stays reader bytes) (f : α → β)
    : Stays (do return f (← reader)) bytes := by
  intro _ rest read
  obtain ⟨value, _, readValue, same⟩ := reader_bind_eq_ok.1 read
  obtain ⟨-, rfl⟩ := Prod.mk.inj (Except.ok.inj same)
  exact stays value _ readValue

/-- A field is read where an element stands; where the list ends, nothing is. -/
theorem reads_field {present absent : Reader Failure α} {index : Nat}
    (reads
      : Reads present fun _ tokens =>
          ∃ (value : Value) (values : List Value),
            tokens ++ [[closeList]] = value.tokens ++ elementTokens false values)
    (stays : ∀ behind, Stays absent (closeList :: behind))
    : Reads (do if ← nextElement (index = 0) then present else absent) fun _ tokens =>
        ∃ values, tokens ++ [[closeList]] = elementTokens (index = 0) values := by
  intro bytes result rest read
  obtain ⟨more, middle, readMore, read⟩ := reader_bind_eq_ok.1 read
  obtain ⟨_, rfl, atFront⟩ := reads_nextElement _ _ _ _ readMore
  cases more with
  | true =>
      obtain ⟨tokens, ⟨value, values, spelled⟩, fronts⟩ := reads _ _ _ read
      refine ⟨_, ⟨value :: values, ?_⟩, atFront.append fronts⟩
      rw [List.append_assoc, spelled]
      cases index <;> simp [elementTokens]
  | false =>
      obtain ⟨behind, rfl⟩ := eq_of_nextElement readMore
      obtain rfl := stays behind _ _ read
      exact ⟨_, ⟨[], by simp [elementTokens]⟩, atFront⟩

/-- Where a list of fields ends no field is read, by recursion on the fields. -/
theorem stays_readFields {β σ : Type} (fields : Fields β σ) (expected : String) (index : Nat)
    (behind : Bytes)
    : Stays (readFields fields expected index) (closeList :: behind) := by
  intro values rest read
  match fields with
  | .nil => exact (Prod.mk.inj (Except.ok.inj read)).2.symm
  | .required name schema others =>
      obtain ⟨more, _, readMore, read⟩ := reader_bind_eq_ok.1 read
      rw [nextElement_close] at readMore
      obtain ⟨rfl, rfl⟩ := Prod.mk.inj (Except.ok.inj readMore)
      cases read
  | .defaulted name schema standard others =>
      obtain ⟨more, _, readMore, read⟩ := reader_bind_eq_ok.1 read
      rw [nextElement_close] at readMore
      obtain ⟨rfl, rfl⟩ := Prod.mk.inj (Except.ok.inj readMore)
      exact (stays_readFields others expected (index + 1) behind).map (standard, ·) _ _ read
  | .omissible name schema others =>
      obtain ⟨more, _, readMore, read⟩ := reader_bind_eq_ok.1 read
      rw [nextElement_close] at readMore
      obtain ⟨rfl, rfl⟩ := Prod.mk.inj (Except.ok.inj readMore)
      exact (stays_readFields others expected (index + 1) behind).map (none, ·) _ _ read

-----------------------------------------------------------------------------------------
-- Schemas of values with parts
-----------------------------------------------------------------------------------------

theorem reads_sequence {element : Schema α} (reads : Reads (read element) fun _ => OfValue)
    : Reads (read (.sequence element)) fun _ => OfValue := by
  rw [read]
  refine reads_byLead fun _ => reads_opened (reads_get fun bytes => ?_) reads_mismatch
  refine (reads_readElements reads bytes.length true).mono ?_
  rintro _ _ ⟨values, rfl⟩
  exact ofValue_list values

theorem reads_exactly {count : Nat} {element : Schema α}
    (reads : Reads (read element) fun _ => OfValue)
    : Reads (read (.exactly count element)) fun _ => OfValue := by
  rw [read]
  refine reads_byLead fun _ => reads_opened ?_ reads_mismatch
  refine (reads_readExactly reads _ count 0).mono ?_
  rintro _ _ ⟨values, rfl⟩
  exact ofValue_list values

/-- A choice is spelled by a name alone, or by an object with the name and the payload. -/
theorem reads_choice {name : String} {variants : Variants α}
    (reads
      : ∀ found payload, Reads (readVariant variants variants.names found payload) fun _ tokens =>
          if payload then ∃ value : Value, tokens = [colon] :: value.tokens else tokens = [])
    : Reads (read (.choice name variants)) fun _ => OfValue := by
  rw [read]
  refine reads_byLead fun lead => ?_
  split
  · refine (reads_readString _).bind ?_
    rintro found _ ⟨parts, rfl⟩
    refine (reads found false).mono ?_
    rintro _ _ rfl
    exact ⟨.text parts, rfl⟩
  · refine reads_opened ((reads_readString _).bind ?_) reads_throw
    rintro found _ ⟨parts, rfl⟩
    refine (reads found true).bind ?_
    rintro value _ ⟨payload, rfl⟩
    refine (reads_readByte closeObject).bind ?_
    rintro _ _ rfl
    exact reads_pure ⟨.object [(parts, payload)], by simp [Value.tokens, memberTokens]⟩

/-- A record is spelled by a list of its fields, or by an object with its fields as members. -/
theorem reads_record {β σ : Type} {name : String} {fields : Fields β σ} {make : β → α}
    {parts : α → β} {make_parts : ∀ value, make (parts value) = value}
    (readsList
      : ∀ expected, Reads (readFields fields expected 0) fun _ tokens =>
          ∃ values, tokens ++ [[closeList]] = elementTokens true values)
    (readsMember
      : ∀ found slots, Reads (readMember fields found slots) fun _ tokens =>
          ∃ value : Value, tokens = [colon] :: value.tokens)
    : Reads (read (.record name fields make parts make_parts)) fun _ => OfValue := by
  rw [read]
  refine reads_byLead fun _ =>
    reads_opened ?_ (reads_opened (reads_get fun bytes => ?_) reads_mismatch)
  · refine (readsList _).bind ?_
    rintro fieldValues front ⟨values, spelled⟩
    refine (reads_readByte closeList).bind ?_
    rintro _ _ rfl
    exact reads_pure (by simpa [spelled] using ofValue_list values)
  · refine (reads_readMembers readsMember bytes.length true fields.empty).bind ?_
    rintro slots _ ⟨members, rfl⟩
    split
    · exact reads_pure (by simpa using ofValue_object members)
    · exact reads_throw

end

mutual

/-- What is read by a schema is spelled by a value. -/
theorem reads_read {α : Type} (schema : Schema α)
    : Reads (read schema) fun _ => OfValue := by
  match schema with
  | .natural width =>
      rw [read]
      exact reads_readNatural width
  | .boolean =>
      rw [read]
      exact reads_readBoolean
  | .text =>
      rw [read]
      refine (reads_readString "a string").mono ?_
      rintro _ _ ⟨parts, rfl⟩
      exact ⟨.text parts, rfl⟩
  | .optional inner =>
      rw [read]
      exact (reads_read inner).orNull
  | .sequence element => exact reads_sequence (reads_read element)
  | .exactly count element => exact reads_exactly (reads_read element)
  | .choice _ variants => exact reads_choice (reads_readVariant variants variants.names)
  | .record _ fields _ _ _ =>
      exact reads_record (fun expected => reads_readFields fields expected 0)
        (reads_readMember fields)

/-- The fields of a record that is written as a list are spelled by its elements. -/
theorem reads_readFields {β σ : Type} (fields : Fields β σ) (expected : String) (index : Nat)
    : Reads (readFields fields expected index) fun _ tokens =>
        ∃ values, tokens ++ [[closeList]] = elementTokens (index = 0) values := by
  match fields with
  | .nil =>
      rw [readFields]
      exact reads_pure ⟨[], by simp [elementTokens]⟩
  | .required name schema rest =>
      rw [readFields]
      have others := reads_readFields rest expected (index + 1)
      exact reads_field (reads_headAndTail [] (reads_read schema) others)
        fun behind _ _ read => nomatch read
  | .defaulted name schema standard rest =>
      rw [readFields]
      have others := reads_readFields rest expected (index + 1)
      exact reads_field (reads_headAndTail [] (reads_read schema) others)
        fun behind => (stays_readFields rest expected (index + 1) behind).map (standard, ·)
  | .omissible name schema rest =>
      rw [readFields]
      have others := reads_readFields rest expected (index + 1)
      refine reads_field (reads_readNull.bind ?_)
        fun behind => (stays_readFields rest expected (index + 1) behind).map (none, ·)
      rintro absent _ rfl
      cases absent with
      | true => exact reads_headAndTail Value.null.tokens (reads_pure ⟨.null, rfl⟩) others
      | false => exact reads_headAndTail [] ((reads_read schema).fmap some) others

/-- A member is spelled by a value behind its colon, whether a field has its name or not. -/
theorem reads_readMember {β σ : Type} (fields : Fields β σ) (name : String) (slots : σ)
    : Reads (readMember fields name slots) fun _ tokens =>
        ∃ value : Value, tokens = [colon] :: value.tokens := by
  match fields, slots with
  | .nil, () =>
      rw [readMember]
      refine (reads_readByte colon).bind ?_
      rintro _ _ rfl
      refine reads_skipValue.mono ?_
      rintro _ _ ⟨value, rfl⟩
      exact ⟨value, rfl⟩
  | .required field schema rest, (slot, slots) | .defaulted field schema _ rest, (slot, slots) =>
      rw [readMember]
      split
      · exact (reads_readSlot (reads_read schema) name slot).bind fun _ _ spelled =>
          reads_pure (by simpa using spelled)
      · exact (reads_readMember rest name slots).bind fun _ _ spelled =>
          reads_pure (by simpa using spelled)
  | .omissible field schema rest, (slot, slots) =>
      rw [readMember]
      split
      · exact (reads_readSlot (reads_read schema).orNull name slot).bind fun _ _ spelled =>
          reads_pure (by simpa using spelled)
      · exact (reads_readMember rest name slots).bind fun _ _ spelled =>
          reads_pure (by simpa using spelled)

/-- The payload of a variant is spelled by a value behind its colon. -/
theorem reads_readVariant {α : Type} (variants : Variants α) (known : List String) (name : String)
    (payload : Bool)
    : Reads (readVariant variants known name payload) fun _ tokens =>
        if payload then ∃ value : Value, tokens = [colon] :: value.tokens else tokens = [] := by
  match variants with
  | .nil => exact reads_throw
  | .bare variant value _ _ rest =>
      rw [readVariant]
      split
      · cases payload with
        | false => exact reads_pure rfl
        | true =>
            refine (reads_readByte colon).bind ?_
            rintro _ _ rfl
            refine reads_readUnit.bind ?_
            rintro _ _ rfl
            exact reads_pure ⟨.null, rfl⟩
      · exact reads_readVariant rest known name payload
  | .carrying variant inner wrap _ _ rest =>
      rw [readVariant]
      split
      · cases payload with
        | false => exact reads_throw
        | true =>
            refine (reads_readByte colon).bind ?_
            rintro _ _ rfl
            refine (reads_read inner).bind ?_
            rintro _ _ ⟨value, rfl⟩
            exact reads_pure ⟨value, by simp⟩
      · exact reads_readVariant rest known name payload

end

/-- What is decoded is a text of a value. -/
theorem exists_isText {α : Type} {schema : Schema α} {bytes : Bytes} {result : α}
    (decoded : decode schema bytes = .ok result)
    : ∃ value : Value, value.IsText bytes := by
  obtain ⟨⟨_, rest⟩, readValue, ended⟩ := bind_eq_ok.1 decoded
  obtain ⟨_, ⟨value, rfl⟩, fronts⟩ := reads_read schema bytes _ _ readValue
  dsimp only at ended
  split at ended
  · rename_i atEnd
    have laid : Laid [] rest := Laid.behindBlank (by rw [atEnd]; exact .nil nofun)
    have text := fronts [] laid
    rw [List.append_nil] at text
    exact ⟨value, text⟩
  · cases ended

end Invalidation.Json
