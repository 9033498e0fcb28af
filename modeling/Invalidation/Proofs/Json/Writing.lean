import Invalidation.Json.Write
import Invalidation.Proofs.Json.Decoding

/-! What is written by a schema is a text of a value, from which the schema takes again what was
written.
-/

namespace Invalidation.Json

-----------------------------------------------------------------------------------------
-- Numbers
-----------------------------------------------------------------------------------------

theorem toNat_letter {c : Char} (small : c.toNat < 256)
    : (letter c).toNat = c.toNat := by
  simpa [letter] using small

theorem toNat_bounds_of_isDigit {c : Char} (digit : c.isDigit = true)
    : 48 ≤ c.toNat ∧ c.toNat ≤ 57 := by
  simpa [Char.isDigit, UInt32.le_iff_toNat_le] using digit

/-- Only zero begins with a zero, by induction on the number without its last digit. -/
theorem eq_zero_of_head?_toDigits {value : Nat} (first : (Nat.toDigits 10 value).head? = some '0')
    : value = 0 := by
  induction value using Nat.strongRecOn with
  | ind value ih =>
      rw [Nat.toDigits_eq_if (by decide)] at first
      split at first
      · rename_i small
        have digit := Nat.toNat_digitChar_of_lt_ten small
        rw [Option.some.inj first] at digit
        have zero : '0'.toNat = 48 := rfl
        omega
      · rename_i large
        obtain ⟨c, rest, front⟩ := List.exists_cons_of_ne_nil
          (Nat.toDigits_ne_nil (n := value / 10) (b := 10))
        rw [front] at first
        have nothing := ih (value / 10) (by omega) (by rw [front]; exact first)
        omega

/-- The digits that a natural number is written with. -/
def Digits.ofNatural (value : Nat)
    : Digits where
  bytes := writeNatural value
  nonempty := by simp [writeNatural]
  areDigits := by
    intro b member
    obtain ⟨c, known, rfl⟩ := List.mem_map.1 member
    have bounds := toNat_bounds_of_isDigit
      (Nat.isDigit_of_mem_toDigits (by decide) (by decide) known)
    simp only [isDigit, Bool.and_eq_true, decide_eq_true_eq, UInt8.le_iff_toNat_le,
      toNat_letter (by omega : c.toNat < 256)]
    exact bounds

theorem Digits.ofDigits_ofNatural (value : Nat)
    : Number.ofDigits (Digits.ofNatural value).values = value := by
  have values : (Digits.ofNatural value).values
      = (Nat.toDigits 10 value).map fun c => c.toNat - 48 := by
    change ((Nat.toDigits 10 value).map letter).map (fun b => b.toNat - 48) = _
    rw [List.map_map]
    refine List.map_congr_left fun c member => ?_
    have bounds := toNat_bounds_of_isDigit
      (Nat.isDigit_of_mem_toDigits (by decide) (by decide) member)
    rw [Function.comp_apply, toNat_letter (by omega)]
  have read := Nat.ofDigitChars_toDigits (b := 10) (n := value) (by decide) (by decide)
  rw [values, Number.ofDigits, List.foldl_map]
  simp only [Nat.ofDigitChars, Nat.mul_comm 10] at read
  exact read

/-- The numeral that a natural number is written as. -/
def Numeral.ofNatural (value : Nat)
    : Numeral where
  negative := false
  whole := .ofNatural value
  zeroAlone := by
    intro first
    have isZero : value = 0 := by
      apply eq_zero_of_head?_toDigits
      obtain ⟨c, known, same⟩ := Option.map_eq_some_iff.1 ((List.head?_map ..).symm.trans first)
      have bounds := toNat_bounds_of_isDigit
        (Nat.isDigit_of_mem_toDigits (by decide) (by decide) (List.mem_of_mem_head? known))
      have number : (letter c).toNat = 48 := congrArg UInt8.toNat same
      rw [toNat_letter (by omega)] at number
      have isZero : c = '0' := Char.toNat_inj.1 number
      rw [known, isZero]
    subst isZero
    rfl
  fraction := none
  exponent := none

theorem Numeral.spelling_ofNatural (value : Nat)
    : (Numeral.ofNatural value).spelling = writeNatural value := by
  simp [spelling, ofNatural, Digits.ofNatural]

theorem Numeral.natural?_ofNatural (value : Nat)
    : (Numeral.ofNatural value).natural? = some value :=
  congrArg some (Digits.ofDigits_ofNatural value)

-----------------------------------------------------------------------------------------
-- Strings
-----------------------------------------------------------------------------------------

namespace Quoted

theorem hexDigit_known (n : Nat) (small : n < 16)
    : hexValue? (hexDigit n) = some n := by
  decide +revert

/-- The part that a byte of a string is written as. -/
def Part.ofByte (b : UInt8)
    : Part :=
  if special : b = quote ∨ b = backslash then
    .short b (by rcases special with rfl | rfl <;> decide)
  else if b = 0x08 then .short (letter 'b') (by decide)
  else if b = 0x0C then .short (letter 'f') (by decide)
  else if b = 0x0A then .short (letter 'n') (by decide)
  else if b = 0x0D then .short (letter 'r') (by decide)
  else if b = 0x09 then .short (letter 't') (by decide)
  else if low : b < 0x20 then
    .point zero zero (hexDigit (b.toNat / 16)) (hexDigit (b.toNat % 16)) (by
      have bound : b.toNat < 32 := UInt8.lt_iff_toNat_lt.1 low
      have high := hexDigit_known (b.toNat / 16) (by omega)
      have rest := hexDigit_known (b.toNat % 16) (by omega)
      intro digit member
      simp only [List.mem_cons, List.not_mem_nil, or_false] at member
      rcases member with rfl | rfl | rfl | rfl
      · decide
      · decide
      · rw [high]; rfl
      · rw [rest]; rfl)
  else .byte b ⟨by simpa using low, fun same => special (.inl same), fun same => special (.inr same)⟩

theorem Part.bytes_ofByte (b : UInt8)
    : (Part.ofByte b).bytes = escape b := by
  grind [ofByte, escape, bytes]

theorem encodePoint_low (n : Nat) (small : n < 32)
    : encodePoint n = [n.toUInt8] := by
  decide +revert

theorem Part.code_low {b : UInt8} (low : b.toNat < 32)
    : Part.code zero zero (hexDigit (b.toNat / 16)) (hexDigit (b.toNat % 16)) = b.toNat := by
  have isZero : hexValue? zero = some 0 := rfl
  simp only [code, isZero, hexDigit_known (b.toNat / 16) (by omega),
    hexDigit_known (b.toNat % 16) (by omega), Option.getD_some]
  omega

theorem content?_point {a b c d : UInt8} {parts : List Part}
    {hexadecimal : ∀ digit ∈ [a, b, c, d], (hexValue? digit).isSome = true}
    (whole : Part.code a b c d < 0xD800 ∨ 0xE000 ≤ Part.code a b c d)
    : content? (.point a b c d hexadecimal :: parts)
      = (content? parts).map (encodePoint (Part.code a b c d) ++ ·) := by
  rw [content?.eq_def]
  exact if_pos whole

/-- A byte of a string stands for itself, however it is written. -/
theorem content?_ofByte_cons (b : UInt8) (parts : List Part)
    : content? (Part.ofByte b :: parts) = (content? parts).map (b :: ·) := by
  unfold Part.ofByte
  split
  · rename_i special
    rcases special with rfl | rfl <;> rfl
  · repeat' split
    any_goals
      rename_i same
      rw [same]
      rfl
    · rename_i low
      have bound : b.toNat < 32 := UInt8.lt_iff_toNat_lt.1 low
      rw [content?_point (by rw [Part.code_low bound]; omega), Part.code_low bound,
        encodePoint_low _ bound]
      simp
    · rfl

/-- The parts that a text is written as. -/
def partsOf (text : String) : List Part := (Bytes.ofText text).map Part.ofByte

theorem spelling_partsOf (text : String)
    : spelling (partsOf text) = write text := by
  rw [spelling, partsOf, write, List.flatMap_map]
  simp only [Part.bytes_ofByte]

theorem text?_partsOf (text : String)
    : text? (partsOf text) = some text := by
  have all (bytes : Bytes) : content? (bytes.map Part.ofByte) = some bytes := by
    induction bytes with
    | nil => rfl
    | cons b rest ih => rw [List.map_cons, content?_ofByte_cons, ih, Option.map_some]
  rw [text?, partsOf, all, Option.bind_some, Bytes.text?_ofText]

/-- Half of a code point, which stands for no text when it is alone. -/
def Part.half : Part :=
  .point (letter 'd') 0x38 0x30 0x30
    (by simp only [List.forall_mem_cons]; exact ⟨rfl, rfl, rfl, rfl, nofun⟩)

end Quoted

-----------------------------------------------------------------------------------------
-- Values that can be taken again
-----------------------------------------------------------------------------------------

mutual

/-- Whether a schema can take the value again from what it is written as: numbers are within their
widths, names are told apart, and so is an optional value from none.
-/
def Recoverable {α : Type} : Schema α → α → Prop
  | .natural width, value => value < width.limit
  | .boolean, _ | .text, _ => True
  | .optional inner, value =>
      inner.absent?.isNone = true ∧ ∀ given ∈ value, Recoverable inner given
  | .sequence element, values => ∀ value ∈ values, Recoverable element value
  | .exactly count element, values =>
      values.length = count ∧ ∀ value ∈ values, Recoverable element value
  | .choice _ variants, value => variants.names.Nodup ∧ RecoverableVariant variants value
  | .record _ fields _ parts _, value =>
      fields.names.Nodup ∧ RecoverableFields fields (parts value)

def RecoverableFields {β σ : Type} : Fields β σ → β → Prop
  | .nil, () => True
  | .required _ value rest, (head, tail) | .defaulted _ value _ rest, (head, tail) =>
      Recoverable value head ∧ RecoverableFields rest tail
  | .omissible _ value rest, (head, tail) =>
      value.absent?.isNone = true
      ∧ (∀ given ∈ head, Recoverable value given)
      ∧ RecoverableFields rest tail

def RecoverableVariant {α : Type} : Variants α → α → Prop
  | .nil, _ => False
  | .bare _ _ test _ rest, value => test value = true ∨ RecoverableVariant rest value
  | .carrying _ payload _ unwrap? _ rest, value =>
      match unwrap? value with
      | some inner => Recoverable payload inner
      | none => RecoverableVariant rest value

end

/-- What a value is written as, and what is taken from that. -/
structure Written {α : Type} (schema : Schema α) (value : α) (spelled : Value) : Prop where
  written : write schema value = spelled.tokens.flatten
  taken : decode? schema spelled = some value
  present : schema.absent?.isNone = true → spelled ≠ .null

section

variable {α β σ : Type}

theorem Written.isText {schema : Schema α} {value : α} {spelled : Value}
    (written : Written schema value spelled)
    : spelled.IsText (write schema value) := by
  rw [written.written]
  exact laid_flatten spelled.tokens

theorem commaSeparated_cons (first : Bytes) (rest : List Bytes)
    : commaSeparated (first :: rest) = first ++ rest.flatMap (comma :: ·) := by
  induction rest generalizing first with
  | nil => simp [commaSeparated, List.intercalate]
  | cons second rest ih =>
      have next := ih second
      simp only [commaSeparated, List.intercalate, List.intersperse_cons_cons,
        List.flatten_cons] at next ⊢
      rw [next]
      simp

theorem flatten_elementTokens (values : List Value)
    : (elementTokens true values).flatten
      = commaSeparated (values.map fun value => value.tokens.flatten) ++ [closeList] := by
  have behind (values : List Value) : (elementTokens false values).flatten
      = (values.map fun value => value.tokens.flatten).flatMap (comma :: ·) ++ [closeList] := by
    induction values with
    | nil => rfl
    | cons value rest ih => simp [elementTokens, ih]
  cases values with
  | nil => rfl
  | cons value rest => simp [elementTokens, behind, commaSeparated_cons]

/-- The members of an object as they are written. -/
def membersOf (members : List (String × Value))
    : Members :=
  members.map fun (name, value) => (Quoted.partsOf name, value)

theorem named?_membersOf (members : List (String × Value))
    : named? (membersOf members) = some members := by
  induction members with
  | nil => rfl
  | cons member rest ih =>
      rw [membersOf, List.map_cons, ← membersOf, named?_cons, Quoted.text?_partsOf, ih]
      rfl

theorem flatten_memberTokens (members : List (String × Value))
    : (memberTokens true (membersOf members)).flatten
      = commaSeparated (members.map fun (name, value) => writeMember name value.tokens.flatten)
        ++ [closeObject] := by
  have behind (members : List (String × Value)) : (memberTokens false (membersOf members)).flatten
      = (members.map fun (name, value) => writeMember name value.tokens.flatten).flatMap
          (comma :: ·)
        ++ [closeObject] := by
    induction members with
    | nil => rfl
    | cons member rest ih =>
        simp only [membersOf] at ih
        simp [memberTokens, membersOf, ih, writeMember, Quoted.spelling_partsOf]
  cases members with
  | nil => rfl
  | cons member rest =>
      have rest := behind rest
      simp only [membersOf] at rest
      simp [memberTokens, membersOf, rest, commaSeparated_cons, writeMember,
        Quoted.spelling_partsOf]

/-- Elements that can be taken again can be so together. -/
theorem exists_written_elements {element : Schema α} {values : List α}
    (each : ∀ value ∈ values, ∃ spelled, Written element value spelled)
    : ∃ spelled : List Value,
        values.map (write element) = spelled.map (fun value => value.tokens.flatten)
        ∧ spelled.mapM (decode? element) = some values := by
  induction values with
  | nil => exact ⟨[], rfl, rfl⟩
  | cons value rest ih =>
      obtain ⟨first, written⟩ := each value List.mem_cons_self
      obtain ⟨others, writtenRest, taken⟩ :=
        ih fun value member => each value (List.mem_cons_of_mem _ member)
      refine ⟨first :: others, ?_, ?_⟩
      · rw [List.map_cons, List.map_cons, written.written, writtenRest]
      · rw [List.mapM_cons, written.taken, taken]
        rfl

-----------------------------------------------------------------------------------------
-- Fields and variants
-----------------------------------------------------------------------------------------

/-- The members that the fields of a record are written as, and what is taken from them. -/
structure WrittenFields (fields : Fields β σ) (values : β) (members : List (String × Value))
    : Prop where
  written
    : writeFields fields values
      = members.map fun (name, value) => writeMember name value.tokens.flatten
  named : ∀ member ∈ members, member.1 ∈ fields.names
  taken : decodeFields? fields members = some values

/-- A record is written as an object of its members. -/
theorem WrittenFields.record {fields : Fields β σ} {make : β → α} {parts : α → β}
    {make_parts : ∀ value, make (parts value) = value} {value : α}
    {members : List (String × Value)} (written : WrittenFields fields (parts value) members)
    (name : String)
    : Written (.record name fields make parts make_parts) value (.object (membersOf members)) where
  written := by simp [write, written.written, Value.tokens, flatten_memberTokens]
  taken := by simp [decode?, Value.fromParts?, named?_membersOf, written.taken, make_parts]
  present := nofun

/-- No member of later fields has the name of an earlier one. -/
theorem WrittenFields.absent {fields : Fields β σ} {values : β} {members : List (String × Value)}
    (written : WrittenFields fields values members) {name : String}
    (distinct : (name :: fields.names).Nodup)
    : ∀ member ∈ members, member.1 ≠ name := by
  rintro member known rfl
  exact (List.nodup_cons.1 distinct).1 (written.named member known)

theorem WrittenFields.named_cons {fields : Fields β σ} {values : β}
    {members : List (String × Value)} (written : WrittenFields fields values members)
    {name : String} {value : Value}
    : ∀ member ∈ (name, value) :: members, member.1 ∈ name :: fields.names := by
  rintro member (_ | ⟨_, known⟩)
  · exact List.mem_cons_self
  · exact List.mem_cons_of_mem _ (written.named member known)

/-- A variant by its name, with its payload if there is one. -/
def variantOf (name : String) : Option Value → Value
  | none => .text (Quoted.partsOf name)
  | some payload => .object [(Quoted.partsOf name, payload)]

theorem variant?_variantOf (name : String) (payload : Option Value)
    : (variantOf name payload).variant? = some (name, payload) := by
  cases payload <;> simp only [variantOf, Value.variant?, Quoted.text?_partsOf, Option.map_some]

/-- The variant that a value is written as, and what is taken from that. -/
structure WrittenVariant (variants : Variants α) (value : α) (name : String)
    (payload : Option Value) : Prop where
  listed : name ∈ variants.names
  written : writeVariant variants value = (variantOf name payload).tokens.flatten
  taken : decodeVariant? variants name payload = some value

/-- A later variant is written and taken past one of another name. -/
theorem WrittenVariant.later {rest variants : Variants α} {value : α} {skipped name : String}
    {payload : Option Value} (written : WrittenVariant rest value name payload)
    (distinct : (skipped :: rest.names).Nodup)
    (names : variants.names = skipped :: rest.names)
    (passed : writeVariant variants value = writeVariant rest value)
    (passes
      : skipped ≠ name → decodeVariant? variants name payload = decodeVariant? rest name payload)
    : WrittenVariant variants value name payload where
  listed := names ▸ List.mem_cons_of_mem _ written.listed
  written := passed.trans written.written
  taken := by
    have different : skipped ≠ name := by
      rintro rfl
      exact (List.nodup_cons.1 distinct).1 written.listed
    rw [passes different, written.taken]

end

mutual

/-- Every recoverable value is written as one that gives it again. -/
theorem exists_written {α : Type} (schema : Schema α) (value : α)
    (recoverable : Recoverable schema value)
    : ∃ spelled, Written schema value spelled := by
  match schema, value, recoverable with
  | .natural width, value, held =>
      refine ⟨.number (.ofNatural value), ?_, ?_, nofun⟩
      · simp [write, Value.tokens, Numeral.spelling_ofNatural]
      · have held : value < width.limit := held
        simp [decode?, Value.natural?, Numeral.natural?_ofNatural, held]
  | .boolean, truth, _ => exact ⟨.boolean truth, by cases truth <;> rfl, rfl, nofun⟩
  | .text, text, _ =>
      refine ⟨.text (Quoted.partsOf text), ?_, ?_, nofun⟩
      · simp [write, Value.tokens, Quoted.spelling_partsOf]
      · simp only [decode?, Value.text?, Quoted.text?_partsOf]
  | .optional inner, none, _ => exact ⟨.null, rfl, rfl, nofun⟩
  | .optional inner, some given, recoverable =>
      obtain ⟨spelled, written⟩ := exists_written inner given (recoverable.2 given rfl)
      refine ⟨spelled, ?_, ?_, nofun⟩
      · rw [write, written.written]
      · rw [decode?, nullOr?_of_ne (written.present recoverable.1), written.taken]
        rfl
  | .sequence element, values, recoverable =>
      obtain ⟨spelled, written, taken⟩ := exists_written_elements fun given member =>
        exists_written element given (recoverable given member)
      refine ⟨.list spelled, ?_, taken, nofun⟩
      simp [write, written, Value.tokens, flatten_elementTokens]
  | .exactly count element, values, recoverable =>
      obtain ⟨spelled, written, taken⟩ := exists_written_elements fun given member =>
        exists_written element given (recoverable.2 given member)
      have counted : spelled.length = count := by
        have same := congrArg List.length written
        rw [List.length_map, List.length_map, recoverable.1] at same
        exact same.symm
      refine ⟨.list spelled, ?_, ?_, nofun⟩
      · simp [write, written, Value.tokens, flatten_elementTokens]
      · rw [decode?, Value.elements?, Option.bind_some, if_pos counted, taken]
  | .choice name variants, value, recoverable =>
      obtain ⟨chosen, payload, variant⟩ := exists_writtenVariant variants value recoverable.1
        recoverable.2
      refine ⟨variantOf chosen payload, ?_, ?_, ?_⟩
      · rw [write, variant.written]
      · rw [decode?, variant?_variantOf]
        exact variant.taken
      · intro _
        cases payload <;> exact nofun
  | .record name fields make parts make_parts, value, recoverable =>
      obtain ⟨members, record⟩ := exists_writtenFields fields (parts value) recoverable.1
        recoverable.2
      exact ⟨.object (membersOf members), record.record name⟩

/-- The values of a record are written as members that give them again, by their names. -/
theorem exists_writtenFields {β σ : Type} (fields : Fields β σ) (values : β)
    (distinct : fields.names.Nodup) (recoverable : RecoverableFields fields values)
    : ∃ members, WrittenFields fields values members := by
  match fields, values with
  | .nil, () => exact ⟨[], rfl, nofun, rfl⟩
  | .required name schema rest, (head, tail) | .defaulted name schema _ rest, (head, tail) =>
      obtain ⟨first, written⟩ := exists_written schema head recoverable.1
      obtain ⟨members, record⟩ := exists_writtenFields rest tail (List.nodup_cons.1 distinct).2
        recoverable.2
      have absent := record.absent distinct
      refine ⟨(name, first) :: members, ?_, record.named_cons, ?_⟩
      · rw [writeFields, written.written, record.written]
        rfl
      · rw [decodeFields?, valuesOf_cons_self, others_cons_self, valuesOf_eq_nil absent,
          others_eq_self absent, single?, written.taken, record.taken]
        rfl
  | .omissible name schema rest, (none, tail) =>
      obtain ⟨members, record⟩ := exists_writtenFields rest tail (List.nodup_cons.1 distinct).2
        recoverable.2.2
      have absent := record.absent distinct
      refine ⟨members, record.written, ?_, ?_⟩
      · exact fun member known => List.mem_cons_of_mem _ (record.named member known)
      · rw [decodeFields?, valuesOf_eq_nil absent, others_eq_self absent, single?, record.taken]
        rfl
  | .omissible name schema rest, (some head, tail) =>
      obtain ⟨first, written⟩ := exists_written schema head (recoverable.2.1 head rfl)
      obtain ⟨members, record⟩ := exists_writtenFields rest tail (List.nodup_cons.1 distinct).2
        recoverable.2.2
      have absent := record.absent distinct
      refine ⟨(name, first) :: members, ?_, record.named_cons, ?_⟩
      · rw [writeFields, written.written, record.written]
        rfl
      · rw [decodeFields?, valuesOf_cons_self, others_cons_self, valuesOf_eq_nil absent,
          others_eq_self absent, single?, nullOr?_of_ne (written.present recoverable.1),
          written.taken, record.taken]
        rfl

/-- A value is written as the first variant that stands for it, which gives it again. -/
theorem exists_writtenVariant {α : Type} (variants : Variants α) (value : α)
    (distinct : variants.names.Nodup) (recoverable : RecoverableVariant variants value)
    : ∃ name payload, WrittenVariant variants value name payload := by
  match variants with
  | .bare name other test eq_of_test rest =>
      cases isOther : test value with
      | true =>
          refine ⟨name, none, List.mem_cons_self, ?_, ?_⟩
          · simp [writeVariant, isOther, variantOf, Value.tokens, Quoted.spelling_partsOf]
          · simp [decodeVariant?, bare?, eq_of_test value isOther]
      | false =>
          have recoverable : RecoverableVariant rest value := by
            simpa [RecoverableVariant, isOther] using recoverable
          obtain ⟨chosen, payload, written⟩ := exists_writtenVariant rest value
            (List.nodup_cons.1 distinct).2 recoverable
          refine ⟨chosen, payload, written.later distinct rfl ?_ ?_⟩
          · simp [writeVariant, isOther]
          · intro different
            rw [decodeVariant?, if_neg different]
  | .carrying name inner wrap unwrap? wrap_unwrap rest =>
      cases unwrapped : unwrap? value with
      | some carried =>
          have recoverable : Recoverable inner carried := by
            simpa [RecoverableVariant, unwrapped] using recoverable
          obtain ⟨spelled, written⟩ := exists_written inner carried recoverable
          refine ⟨name, some spelled, List.mem_cons_self, ?_, ?_⟩
          · simp [writeVariant, unwrapped, variantOf, Value.tokens, memberTokens,
              Quoted.spelling_partsOf, writeMember, written.written]
          · simp [decodeVariant?, written.taken, wrap_unwrap value carried unwrapped]
      | none =>
          have recoverable : RecoverableVariant rest value := by
            simpa [RecoverableVariant, unwrapped] using recoverable
          obtain ⟨chosen, payload, written⟩ := exists_writtenVariant rest value
            (List.nodup_cons.1 distinct).2 recoverable
          refine ⟨chosen, payload, written.later distinct rfl ?_ ?_⟩
          · simp [writeVariant, unwrapped]
          · intro different
            rw [decodeVariant?, if_neg different]

end

/-- A record is written as an object. -/
theorem exists_written_object {α β σ : Type} {name : String} {fields : Fields β σ} {make : β → α}
    {parts : α → β} {make_parts : ∀ value, make (parts value) = value} {value : α}
    (recoverable : Recoverable (.record name fields make parts make_parts) value)
    : ∃ members, Written (.record name fields make parts make_parts) value (.object members) := by
  obtain ⟨members, record⟩ := exists_writtenFields fields (parts value) recoverable.1
    recoverable.2
  exact ⟨membersOf members, record.record name⟩

/-- What is written by a schema is decoded as the value that was written. -/
theorem decode_write {α : Type} {schema : Schema α} {value : α}
    (recoverable : Recoverable schema value)
    : decode schema (write schema value) = .ok value := by
  obtain ⟨spelled, written⟩ := exists_written schema value recoverable
  exact (decode_eq_ok_iff written.isText).2 written.taken

end Invalidation.Json
