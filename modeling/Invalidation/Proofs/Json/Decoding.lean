import Invalidation.Proofs.Json.Meaning
import Invalidation.Proofs.Json.Skip

/-! Every text of a value is read as what the schema takes from the value, and refused if the schema
takes nothing.
-/

namespace Invalidation.Json

/-- Where any tokens follow that may stand behind a value, the reader takes the value that it is
asked for from the tokens of the one that is there.
-/
def Takes {α : Type} (reader : Reader Failure α) (value : Value) (taken? : Option α)
    : Prop :=
  ∀ after, Ends after → Gives reader (value.tokens ++ after) after taken?

section

variable {α : Type} {reader : Reader Failure α} {value : Value} {after left : List Bytes}

/-- A reader refuses a value as soon as it refuses the first byte. -/
theorem takes_none
    (refused
      : ∀ token after left, Gives reader ((value.lead :: token) :: after) left none)
    : Takes reader value none := by
  intro after _
  obtain ⟨token, tail, spelled⟩ := value.tokens_eq_cons
  rw [spelled]
  exact refused token _ _

/-- The first byte of a value may be looked at. -/
theorem gives_peek_value (value : Value)
    : Gives peek (value.tokens ++ after) (value.tokens ++ after) (some value.lead) := by
  obtain ⟨token, tail, spelled⟩ := value.tokens_eq_cons
  rw [spelled]
  exact gives_peek value.isBlank_lead

-----------------------------------------------------------------------------------------
-- Values without parts
-----------------------------------------------------------------------------------------

theorem takes_natural (width : Width) (value : Value)
    : Takes (readNatural width) value (decode? (.natural width) value) := by
  have refused (other : (value.lead = minus || isDigit value.lead) = false)
      : Takes (readNatural width) value none :=
    takes_none fun _ _ _ => gives_readNatural_of_ne value.isBlank_lead other
  cases value with
  | null => exact refused (by decide)
  | boolean truth => cases truth <;> exact refused (by decide)
  | number numeral => exact fun after ends => gives_readNatural numeral ends
  | text parts => exact refused rfl
  | list elements => exact refused rfl
  | object members => exact refused rfl

theorem takes_boolean (value : Value)
    : Takes readBoolean value (decode? .boolean value) := by
  have refused (other : value.lead ≠ letter 't' ∧ value.lead ≠ letter 'f')
      : Takes readBoolean value none :=
    takes_none fun _ _ _ => gives_readBoolean_of_ne value.isBlank_lead other
  cases value with
  | null => exact refused (by decide)
  | boolean truth => exact fun after _ => gives_readBoolean truth
  | number numeral => exact refused ⟨numeral.lead_ne (by decide), numeral.lead_ne (by decide)⟩
  | text parts => exact refused (by simp only [Value.lead]; decide)
  | list elements => exact refused (by simp only [Value.lead]; decide)
  | object members => exact refused (by simp only [Value.lead]; decide)

theorem takes_text (expected : String) (value : Value)
    : Takes (readString expected) value (decode? .text value) := by
  have refused (other : value.lead ≠ quote) : Takes (readString expected) value none :=
    takes_none fun _ _ _ => gives_readString_of_ne value.isBlank_lead other
  cases value with
  | null => exact refused (by decide)
  | boolean truth => cases truth <;> exact refused (by decide)
  | number numeral => exact refused (numeral.lead_ne (by decide))
  | text parts => exact fun after _ => gives_readString parts
  | list elements => exact refused (by simp only [Value.lead]; decide)
  | object members => exact refused (by simp only [Value.lead]; decide)

theorem gives_readNull_value (other : value ≠ .null)
    : Gives readNull (value.tokens ++ after) (value.tokens ++ after) (some false) := by
  have unlike (different : value.lead ≠ letter 'n')
      : Gives readNull (value.tokens ++ after) (value.tokens ++ after) (some false) := by
    obtain ⟨token, tail, spelled⟩ := value.tokens_eq_cons
    rw [spelled]
    exact gives_readNull_of_ne value.isBlank_lead different
  cases value with
  | null => exact absurd rfl other
  | boolean truth => cases truth <;> exact unlike (by decide)
  | number numeral => exact unlike (numeral.lead_ne (by decide))
  | text parts => exact unlike (by simp only [Value.lead]; decide)
  | list elements => exact unlike (by simp only [Value.lead]; decide)
  | object members => exact unlike (by simp only [Value.lead]; decide)

/-- What is done after a look for null depends on whether the value is null. -/
theorem gives_orNull {next : Bool → Reader Failure α} {taken? : Option α}
    (absent : value = .null → Gives (next true) after left taken?)
    (present : value ≠ .null → Gives (next false) (value.tokens ++ after) left taken?)
    : Gives (readNull >>= next) (value.tokens ++ after) left taken? := by
  by_cases isNull : value = .null
  · have found := absent isNull
    subst isNull
    exact gives_readNull.andThen found
  · exact (gives_readNull_value isNull).andThen (present isNull)

theorem gives_readUnit
    : Gives readUnit (value.tokens ++ after) after (bare? () (some value)) := by
  intro bytes laid
  by_cases isNull : value = .null
  · subst isNull
    obtain ⟨rest, laid, read⟩ := gives_readNull bytes laid
    refine ⟨rest, laid, ?_⟩
    rw [readUnit, read]
    rfl
  · obtain ⟨rest, laid, read⟩ := gives_readNull_value isNull bytes laid
    have nothing : bare? () (some value) = none := by
      cases value with
      | null => exact absurd rfl isNull
      | boolean | number | text | list | object => rfl
    rw [nothing]
    refine ⟨mismatch "unit" rest, ?_⟩
    rw [readUnit, read]
    rfl

/-- A value that may be null is read as null or by its own reader. -/
theorem takes_nullOr {present : Value → Option α} (taken : Takes reader value (present value))
    : Takes (readNull >>= fun absent => if absent then pure none else return some (← reader)) value
        (nullOr? present value) := by
  intro after ends
  apply gives_orNull
  · rintro rfl
    exact gives_pure
  · intro other
    rw [nullOr?_of_ne other]
    exact (taken after ends).map some

end

-----------------------------------------------------------------------------------------
-- Lists and objects
-----------------------------------------------------------------------------------------

section

variable {α σ : Type} {after : List Bytes}

/-- Elements are read one after the other, by induction on them. -/
theorem gives_readElements {element : Reader Failure α} {taken : Value → Option α}
    (takes : ∀ value, Takes element value (taken value)) {values : List Value} {first : Bool}
    {fuel : Nat} (enough : (elementTokens first values ++ after).flatten.length ≤ fuel)
    : Gives (readElements element fuel first) (elementTokens first values ++ after) after
        (values.mapM taken) := by
  induction values generalizing first fuel with
  | nil =>
      obtain ⟨left, rfl⟩ : ∃ left, fuel = left + 1 :=
        ⟨fuel - 1, by simp [elementTokens] at enough; omega⟩
      exact (gives_nextElement_close first).andThen
        ((gives_readByte (by decide)).andThen gives_pure)
  | cons value rest ih =>
      have spent : 0 < value.tokens.flatten.length := by
        obtain ⟨token, tail, spelled⟩ := value.tokens_eq_cons
        simp [spelled]
      obtain ⟨left, rfl, more⟩
          : ∃ left,
              fuel = left + 1 ∧ (elementTokens false rest ++ after).flatten.length ≤ left := by
        simp only [elementTokens, List.flatten_append, List.length_append] at enough ⊢
        exact ⟨fuel - 1, by omega, by omega⟩
      rw [List.mapM_cons]
      exact (gives_nextElement first value rest).andThen <|
        (takes value _ (ends_elementTokens rest after)).bind fun head _ =>
          (ih more).bind fun tail _ => gives_pure

/-- An element where the list has to end. -/
theorem gives_closeList_cons (first : Bool) (value : Value) (rest : List Value) {left : List Bytes}
    : Gives (readByte closeList) (elementTokens first (value :: rest) ++ after) left none := by
  cases first with
  | true =>
      obtain ⟨token, tail, spelled⟩ := value.tokens_eq_cons
      rw [elementTokens, spelled]
      exact gives_readByte_of_ne value.isBlank_lead value.lead_ne_closeList
  | false => exact gives_readByte_of_ne (by decide) (by decide)

/-- Elements are read up to their number, and none may be left then. -/
theorem gives_readExactly {element : Reader Failure α} {taken : Value → Option α}
    (takes : ∀ value, Takes element value (taken value)) {expected : String} {values : List Value}
    {count index : Nat}
    : Gives (readExactly element expected count index)
        (elementTokens (index = 0) values ++ after) after
        (if values.length = count then values.mapM taken else none) := by
  induction count generalizing values index with
  | zero =>
      cases values with
      | nil => exact (gives_readByte (by decide)).andThen gives_pure
      | cons value rest =>
          exact (gives_closeList_cons _ value rest).fail
  | succ count ih =>
      cases values with
      | nil => exact (gives_nextElement_close _).andThen gives_throw
      | cons value rest =>
          have counted
              : (if (value :: rest).length = count + 1 then (value :: rest).mapM taken else none)
                = (taken value).bind fun head =>
                    (if rest.length = count then rest.mapM taken else none).map (head :: ·) := by
            simp only [List.length_cons, Nat.add_right_cancel_iff, List.mapM_cons]
            split
            · simp only [Option.map_eq_bind]
              rfl
            · cases taken value <;> rfl
          rw [counted]
          exact (gives_nextElement (index = 0) value rest).andThen <|
            (takes value _ (ends_elementTokens rest after)).bind fun head _ => ih.map (head :: ·)

/-- The slots after all members are read, if none of them is refused. -/
def fillAll? (fill? : String → Value → σ → Option σ) (slots : σ) : Members → Option σ
  | [] => some slots
  | (name, value) :: rest => do
      let slots ← fill? (← Quoted.text? name) value slots
      fillAll? fill? slots rest

/-- Members are read one after the other, by induction on them. -/
theorem gives_readMembers {member : String → σ → Reader Failure σ}
    {fill? : String → Value → σ → Option σ}
    (fills
      : ∀ name value slots after,
          Ends after
          → Gives (member name slots) ([colon] :: (value.tokens ++ after)) after
              (fill? name value slots))
    {members : Members} {first : Bool} {slots : σ} {fuel : Nat}
    (enough : (memberTokens first members ++ after).flatten.length ≤ fuel)
    : Gives (readMembers member fuel first slots) (memberTokens first members ++ after) after
        (fillAll? fill? slots members) := by
  induction members generalizing first fuel slots with
  | nil =>
      obtain ⟨left, rfl⟩ : ∃ left, fuel = left + 1 :=
        ⟨fuel - 1, by simp [memberTokens] at enough; omega⟩
      exact (gives_nextName_close first).andThen gives_pure
  | cons entry rest ih =>
      obtain ⟨name, value⟩ := entry
      obtain ⟨left, rfl, more⟩
          : ∃ left,
              fuel = left + 1 ∧ (memberTokens false rest ++ after).flatten.length ≤ left := by
        simp only [memberTokens, List.flatten_append, List.length_append, List.flatten_cons,
          List.length_cons] at enough ⊢
        exact ⟨fuel - 1, by omega, by omega⟩
      have named
          : Gives (nextName? first) (memberTokens first ((name, value) :: rest) ++ after) _ _ :=
        gives_nextName first name value rest
      rw [fillAll?]
      cases text : Quoted.text? name with
      | none =>
          rw [text] at named
          exact named.fail
      | some name =>
          rw [text] at named
          exact named.andThen <|
            (fills name value slots _ (ends_memberTokens rest after)).bind fun slots _ => ih more

end

-----------------------------------------------------------------------------------------
-- Slots
-----------------------------------------------------------------------------------------

section

variable {α β σ τ : Type} {after : List Bytes}

/-- A slot takes one value. -/
def fillSlot? (slot value? : Option α)
    : Option (Option α) :=
  if slot.isSome then none else value?.map some

/-- What a member does to the slots of the fields. -/
def fill? {β σ : Type} (fields : Fields β σ) (name : String) (value : Value) (slots : σ)
    : Option σ :=
  match fields, slots with
  | .nil, () => some ()
  | .required field schema rest, (slot, slots)
  | .defaulted field schema _ rest, (slot, slots) =>
      if field = name then (fillSlot? slot (decode? schema value)).map (·, slots)
      else (fill? rest name value slots).map (slot, ·)
  | .omissible field schema rest, (slot, slots) =>
      if field = name then (fillSlot? slot (nullOr? (decode? schema) value)).map (·, slots)
      else (fill? rest name value slots).map (slot, ·)

theorem gives_readSlot {reader : Reader Failure α} {value : Value} {taken? : Option α}
    (takes : Takes reader value taken?) (name : String) (slot : Option α) (ends : Ends after)
    : Gives (readSlot name slot reader) ([colon] :: (value.tokens ++ after)) after
        (fillSlot? slot taken?) := by
  cases slot with
  | none =>
      exact (gives_readByte (b := colon) (by decide)).andThen ((takes after ends).map some)
  | some full => exact gives_throw.fail

/-- The slot after all values for it were read, and what stands for a value if there was none. -/
theorem foldlM_fillSlot? (values : List Value) (absent : Option α) (present : Value → Option α)
    : ((values.foldlM (fun slot value => fillSlot? slot (present value)) none).bind fun slot =>
        slot <|> absent)
      = single? values absent present := by
  match values with
  | [] => rfl
  | [value] =>
      simp only [List.foldlM_cons, List.foldlM_nil, fillSlot?, single?]
      cases present value <;> rfl
  | value :: again :: rest =>
      simp only [List.foldlM_cons, fillSlot?, single?]
      cases present value <;> rfl

/-- Members that fill one of two slots, according to their names, fill each of the two with those
for it; by induction on the members.
-/
theorem foldlM_split (field : String) (own : Value → σ → Option σ)
    (other : String → Value → τ → Option τ) (slot : σ) (slots : τ)
    (members : List (String × Value))
    : members.foldlM
        (fun both (member : String × Value) =>
          if field = member.1 then (own member.2 both.1).map (·, both.2)
          else (other member.1 member.2 both.2).map (both.1, ·))
        (slot, slots)
      = (do
          let slot ← (valuesOf field members).foldlM (fun slot value => own value slot) slot
          let slots ←
            (others field members).foldlM (fun slots member => other member.1 member.2 slots) slots
          return (slot, slots)) := by
  induction members generalizing slot slots with
  | nil => rfl
  | cons member rest ih =>
      obtain ⟨name, value⟩ := member
      by_cases same : field = name
      · subst same
        rw [valuesOf_cons_self, others_cons_self, List.foldlM_cons, List.foldlM_cons, if_pos rfl]
        cases own value slot with
        | none => rfl
        | some slot => exact ih slot slots
      · have different := Ne.symm same
        rw [valuesOf_cons_of_ne different, others_cons_of_ne different, List.foldlM_cons,
          List.foldlM_cons, if_neg same]
        cases other name value slots with
        | none => cases (valuesOf field rest).foldlM (fun slot value => own value slot) slot <;> rfl
        | some slots => exact ih slot slots

/-- Members that fill the slot of a first field and those of others give what is taken for that field,
and what the others give.
-/
theorem finish_split (field : String) (present : Value → Option α) (absent : Option α)
    (other : String → Value → τ → Option τ) (slots : τ) {finish : Option α × τ → Except Fault (α × β)}
    {finishOthers : τ → Except Fault β}
    (finishes
      : ∀ slot slots,
          (finish (slot, slots)).toOption
          = (slot <|> absent).bind fun head => (finishOthers slots).toOption.map (head, ·))
    (members : List (String × Value))
    : ((members.foldlM
            (fun both (member : String × Value) =>
              if field = member.1 then (fillSlot? both.1 (present member.2)).map (·, both.2)
              else (other member.1 member.2 both.2).map (both.1, ·))
            (none, slots)).bind fun slots => (finish slots).toOption)
      = (do
          let head ← single? (valuesOf field members) absent present
          return (
            head,
            ← ((others field members).foldlM
                (fun slots member => other member.1 member.2 slots) slots).bind fun slots =>
              (finishOthers slots).toOption)) := by
  rw [← foldlM_fillSlot?,
    foldlM_split field (fun value slot => fillSlot? slot (present value)) other none slots members]
  generalize (valuesOf field members).foldlM (fun slot value => fillSlot? slot (present value)) none
    = filled
  generalize (others field members).foldlM (fun slots member => other member.1 member.2 slots) slots
    = filledOthers
  cases filled with
  | none => rfl
  | some slot =>
      cases filledOthers with
      | none => cases slot <;> cases absent <;> rfl
      | some slots =>
          change (finish (slot, slots)).toOption = _
          rw [finishes]
          simp only [Option.map_eq_bind]
          rfl

theorem toOption_map {answer : Except Fault α} (f : α → β)
    : (answer.map f).toOption = answer.toOption.map f := by
  cases answer <;> rfl

/-- Reading members one after the other, each into its slot, takes from them what the fields take. -/
theorem finish_foldlM_fill? {β σ : Type} (fields : Fields β σ) (members : List (String × Value))
    : ((members.foldlM (fun slots member => fill? fields member.1 member.2 slots) fields.empty).bind
        fun slots => (fields.finish slots).toOption)
      = decodeFields? fields members := by
  match fields with
  | .nil =>
      have kept : members.foldlM (fun slots member => fill? Fields.nil member.1 member.2 slots) ()
          = some () := by
        induction members with
        | nil => rfl
        | cons member rest ih => exact ih
      rw [decodeFields?]
      exact congrArg (Option.bind · fun slots => (Fields.nil.finish slots).toOption) kept
  | .required field schema rest =>
      rw [decodeFields?, ← finish_foldlM_fill? rest (others field members)]
      refine finish_split field (decode? schema) schema.absent? (fill? rest) rest.empty
        (fun slot slots => ?_) members
      rw [Fields.finish]
      cases slot with
      | some head => exact toOption_map _
      | none =>
          cases schema.absent? with
          | none => rfl
          | some head => exact toOption_map _
  | .defaulted field schema standard rest =>
      rw [decodeFields?, ← finish_foldlM_fill? rest (others field members)]
      refine finish_split field (decode? schema) (some standard) (fill? rest) rest.empty
        (fun slot slots => ?_) members
      rw [Fields.finish]
      cases slot <;> exact toOption_map _
  | .omissible field schema rest =>
      rw [decodeFields?, ← finish_foldlM_fill? rest (others field members)]
      refine finish_split field (nullOr? (decode? schema)) (some none) (fill? rest) rest.empty
        (fun slot slots => ?_) members
      rw [Fields.finish]
      cases slot <;> exact toOption_map _

end

-----------------------------------------------------------------------------------------
-- What the first byte decides
-----------------------------------------------------------------------------------------

section

variable {α : Type} {value : Value}

/-- A value that starts neither like a word nor like a number is a string, a list or an object. -/
theorem Value.exists_parts (noWord : value.lead ∉ [letter 'n', letter 't', letter 'f'])
    (noNumber : (value.lead = minus || isDigit value.lead) = false)
    : (∃ parts, value = .text parts)
      ∨ (∃ elements, value = .list elements)
      ∨ ∃ members, value = .object members := by
  cases value with
  | null => exact absurd List.mem_cons_self noWord
  | boolean truth => cases truth <;> exact absurd (by decide) noWord
  | number numeral => exact absurd (noNumber.symm.trans numeral.lead_isNumeral) Bool.false_ne_true
  | text parts => exact .inl ⟨parts, rfl⟩
  | list elements => exact .inr (.inl ⟨elements, rfl⟩)
  | object members => exact .inr (.inr ⟨members, rfl⟩)

theorem Value.lead_eq_openList_iff
    : value.lead = openList ↔ ∃ elements, value = .list elements := by
  constructor
  · intro same
    rcases value.exists_parts (by rw [same]; decide) (by rw [same]; decide)
      with ⟨parts, rfl⟩ | isList | ⟨members, rfl⟩
    · exact absurd same (by simp only [lead]; decide)
    · exact isList
    · exact absurd same (by simp only [lead]; decide)
  · rintro ⟨elements, rfl⟩
    rfl

theorem Value.lead_eq_openObject_iff
    : value.lead = openObject ↔ ∃ members, value = .object members := by
  constructor
  · intro same
    rcases value.exists_parts (by rw [same]; decide) (by rw [same]; decide)
      with ⟨parts, rfl⟩ | ⟨elements, rfl⟩ | isObject
    · exact absurd same (by simp only [lead]; decide)
    · exact absurd same (by simp only [lead]; decide)
    · exact isObject
  · rintro ⟨members, rfl⟩
    rfl

theorem Value.lead_eq_quote_iff
    : value.lead = quote ↔ ∃ parts, value = .text parts := by
  constructor
  · intro same
    rcases value.exists_parts (by rw [same]; decide) (by rw [same]; decide)
      with isText | ⟨elements, rfl⟩ | ⟨members, rfl⟩
    · exact isText
    · exact absurd same (by simp only [lead]; decide)
    · exact absurd same (by simp only [lead]; decide)
  · rintro ⟨parts, rfl⟩
    rfl

/-- A reader that looks at the first byte goes on from it with the value still ahead. -/
theorem takes_byLead {next : UInt8 → Reader Failure α} {taken? : Option α}
    (takes : Takes (next value.lead) value taken?)
    : Takes (peek >>= next) value taken? :=
  fun after ends => (gives_peek_value value).andThen (takes after ends)

/-- Where a bracket is looked for, a value that begins with it is taken as what stands behind it, and
any value that begins otherwise as the other reader takes it.
-/
theorem takes_opened {opener : UInt8} (solid : isBlank opener = false)
    {inside other : Reader Failure α} {taken? : Option α}
    (opened
      : value.lead = opener
        → ∃ tail,
            value.tokens = [opener] :: tail
            ∧ ∀ after, Gives inside (tail ++ after) after taken?)
    (otherwise : value.lead ≠ opener → Takes other value taken?)
    : Takes (if value.lead = opener then do readByte opener; inside else other) value taken? := by
  intro after ends
  by_cases opens : value.lead = opener
  · obtain ⟨tail, spelled, given⟩ := opened opens
    rw [if_pos opens, spelled]
    exact (gives_readByte solid).andThen (given after)
  · rw [if_neg opens]
    exact otherwise opens after ends

theorem takes_list {inside other : Reader Failure α} {taken? : Option α}
    (list
      : ∀ elements,
          value = .list elements
          → ∀ after, Gives inside (elementTokens true elements ++ after) after taken?)
    (otherwise : value.lead ≠ openList → Takes other value taken?)
    : Takes (if value.lead = openList then do readByte openList; inside else other) value
        taken? := by
  refine takes_opened (by decide) (fun isList => ?_) otherwise
  obtain ⟨elements, rfl⟩ := Value.lead_eq_openList_iff.1 isList
  exact ⟨_, by rw [Value.tokens], list elements rfl⟩

theorem takes_object {inside other : Reader Failure α} {taken? : Option α}
    (object
      : ∀ members,
          value = .object members
          → ∀ after, Gives inside (memberTokens true members ++ after) after taken?)
    (otherwise : value.lead ≠ openObject → Takes other value taken?)
    : Takes (if value.lead = openObject then do readByte openObject; inside else other) value
        taken? := by
  refine takes_opened (by decide) (fun isObject => ?_) otherwise
  obtain ⟨members, rfl⟩ := Value.lead_eq_openObject_iff.1 isObject
  exact ⟨_, by rw [Value.tokens], object members rfl⟩

/-- Where a quotation mark is looked for, a text is taken whole by the reader of texts. -/
theorem takes_quoted {whole other : Reader Failure α} {taken? : Option α}
    (text : ∀ parts, value = .text parts → Takes whole value taken?)
    (otherwise : value.lead ≠ quote → Takes other value taken?)
    : Takes (if value.lead = quote then whole else other) value taken? := by
  by_cases isText : value.lead = quote
  · obtain ⟨parts, same⟩ := Value.lead_eq_quote_iff.1 isText
    rw [if_pos isText]
    exact text parts same
  · rw [if_neg isText]
    exact otherwise isText

theorem Value.elements?_eq_none (other : value.lead ≠ openList) : value.elements? = none := by
  cases value with
  | list => exact absurd rfl other
  | null | boolean | number | text | object => rfl

theorem Value.variant?_eq_none (noText : value.lead ≠ quote) (noObject : value.lead ≠ openObject)
    : value.variant? = none := by
  cases value with
  | text => exact absurd rfl noText
  | object => exact absurd rfl noObject
  | null | boolean | number | list => rfl

theorem Value.fromParts?_eq_none {fromList : List Value → Option α}
    {fromObject : Members → Option α} (noList : value.lead ≠ openList)
    (noObject : value.lead ≠ openObject)
    : value.fromParts? fromList fromObject = none := by
  cases value with
  | list => exact absurd rfl noList
  | object => exact absurd rfl noObject
  | null | boolean | number | text => rfl

-----------------------------------------------------------------------------------------
-- Schemas of values with parts
-----------------------------------------------------------------------------------------

theorem takes_mismatch {expected : String}
    : Takes (do throw (mismatch expected (← get)) : Reader Failure α) value none :=
  fun _ _ bytes _ => ⟨mismatch expected bytes, rfl⟩

theorem memberTokens_cons (name : List Quoted.Part) (value : Value) (rest : Members)
    (after : List Bytes)
    : memberTokens true ((name, value) :: rest) ++ after
      = Quoted.spelling name :: [colon]
        :: (value.tokens ++ (memberTokens false rest ++ after)) := by
  simp [memberTokens]

/-- Members are taken in order where the fields take them by name. -/
theorem fillAll?_eq {σ : Type} (fill? : String → Value → σ → Option σ) (slots : σ)
    (members : Members)
    : fillAll? fill? slots members
      = (named? members).bind fun members =>
          members.foldlM (fun slots member => fill? member.1 member.2 slots) slots := by
  induction members generalizing slots with
  | nil => rfl
  | cons member rest ih =>
      obtain ⟨name, value⟩ := member
      rw [named?_cons, fillAll?]
      cases Quoted.text? name with
      | none => rfl
      | some name =>
          simp only [Option.bind_some, Option.bind_map, Option.bind_eq_bind, ih]
          cases filled : fill? name value slots <;> cases named? rest <;> simp [filled]

/-- Read into slots, the members of an object give what the fields take from them. -/
theorem fillAll?_fill? {β σ : Type} (fields : Fields β σ) (members : Members)
    : ((fillAll? (fill? fields) fields.empty members).bind fun slots =>
        (fields.finish slots).toOption)
      = (named? members).bind (decodeFields? fields) := by
  rw [fillAll?_eq, Option.bind_assoc]
  congr
  funext members
  exact finish_foldlM_fill? fields members

section

variable {element : Schema α}
  (takes : ∀ value, Takes (read element) value (decode? element value))

include takes

theorem takes_sequence (value : Value)
    : Takes (read (.sequence element)) value (decode? (.sequence element) value) := by
  rw [read, decode?]
  refine takes_byLead (takes_list ?_ fun otherwise => ?_)
  · rintro elements rfl after
    exact gives_get fun _ enough => gives_readElements takes enough
  · rw [value.elements?_eq_none otherwise]
    exact takes_mismatch

theorem takes_exactly (count : Nat) (value : Value)
    : Takes (read (.exactly count element)) value (decode? (.exactly count element) value) := by
  rw [read, decode?]
  refine takes_byLead (takes_list ?_ fun otherwise => ?_)
  · rintro elements rfl after
    exact gives_readExactly takes
  · rw [value.elements?_eq_none otherwise]
    exact takes_mismatch

end

/-- Of an object that holds a variant the only member is read. -/
theorem gives_onlyMember {expected : String} {tagged : String → Reader Failure α}
    {taken? : String × Option Value → Option α}
    (reads
      : ∀ name payload after,
          Ends after
          → Gives (tagged name) ([colon] :: (payload.tokens ++ after)) after
              (taken? (name, some payload)))
    (members : Members) (after : List Bytes)
    : Gives
        (do
          let name ← readString expected
          let value ← tagged name
          readByte closeObject
          return value)
        (memberTokens true members ++ after) after
        ((Value.object members).variant?.bind taken?) := by
  match members with
  | [] => exact (gives_readString_of_ne (by decide) (by decide)).fail
  | [(name, payload)] =>
      rw [memberTokens_cons, Value.variant?, Option.bind_map]
      refine (gives_readString name).bind fun name _ => ?_
      have variant := reads name payload _ (ends_memberTokens [] after)
      simpa using variant.closing (gives_readByte (by decide)) id
  | (name, payload) :: second :: rest =>
      have noClose : Gives (readByte closeObject)
          (memberTokens false (second :: rest) ++ after) after none :=
        gives_readByte_of_ne (by decide) (by decide)
      rw [memberTokens_cons]
      exact (gives_readString name).thenFail fun name =>
        (reads name payload _ (ends_memberTokens (second :: rest) after)).thenFail fun _ =>
          noClose.fail

theorem takes_choice {name : String} {variants : Variants α}
    (reads
      : ∀ found payload after,
          Ends after
          → Gives (readVariant variants variants.names found (Option.isSome payload))
              ((payload.elim [] fun value => [colon] :: value.tokens) ++ after) after
              (decodeVariant? variants found payload))
    (value : Value)
    : Takes (read (.choice name variants)) value (decode? (.choice name variants) value) := by
  rw [read, decode?]
  refine takes_byLead (takes_quoted ?_ fun noText => takes_object ?_ fun noObject => ?_)
  · rintro parts rfl after ends
    rw [Value.variant?, Option.bind_map]
    exact (gives_readString parts).bind fun found _ => reads found none after ends
  · rintro members rfl after
    exact gives_onlyMember (fun found payload => reads found (some payload)) members after
  · rw [Value.variant?_eq_none noText noObject]
    exact fun _ _ => gives_throw

/-- A list of fields closes behind them, or there are more elements than fields. -/
theorem gives_fieldList {β : Type} {reader : Reader Failure β} {tokens after : List Bytes}
    {elements : List Value} {count : Nat} {first : Bool} {values? : Option β}
    (reads : Gives reader tokens (elementTokens first (elements.drop count) ++ after) values?)
    (make : β → α)
    : Gives (do let values ← reader; readByte closeList; return make values) tokens after
        (if elements.length ≤ count then values?.map make else none) := by
  by_cases few : elements.length ≤ count
  · rw [List.drop_eq_nil_of_le few] at reads
    rw [if_pos few]
    exact reads.closing (gives_readByte (by decide)) make
  · obtain ⟨next, rest, left⟩ := List.exists_cons_of_ne_nil (mt List.drop_eq_nil_iff.1 few)
    rw [left] at reads
    rw [if_neg few]
    exact reads.thenFail fun _ => (gives_closeList_cons _ _ _).fail

theorem takes_record {β σ : Type} {name : String} {fields : Fields β σ} {make : β → α}
    {parts : α → β} {make_parts : ∀ value, make (parts value) = value}
    (readsList
      : ∀ expected elements after, ∃ first,
          Gives (readFields fields expected 0) (elementTokens true elements ++ after)
            (elementTokens first (elements.drop fields.names.length) ++ after)
            (decodeList? fields elements))
    (readsMember
      : ∀ found payload slots after,
          Ends after
          → Gives (readMember fields found slots) ([colon] :: (payload.tokens ++ after)) after
              (fill? fields found payload slots))
    (value : Value)
    : Takes (read (.record name fields make parts make_parts)) value
        (decode? (.record name fields make parts make_parts) value) := by
  rw [read, decode?]
  refine takes_byLead (takes_list ?_ fun noList => takes_object ?_ fun noObject => ?_)
  · rintro elements rfl after
    obtain ⟨first, reads⟩ := readsList (Schema.lengthText name fields.names.length) elements after
    exact gives_fieldList reads make
  · rintro members rfl after
    rw [Value.fromParts?, ← fillAll?_fill?, Option.map_bind]
    refine gives_get fun bytes enough => ?_
    refine (gives_readMembers readsMember enough).bind fun slots _ => ?_
    rw [Function.comp_apply]
    cases fields.finish slots with
    | ok values => exact gives_pure
    | error fault => exact gives_throw
  · rw [Value.fromParts?_eq_none noList noObject]
    exact takes_mismatch

end

-----------------------------------------------------------------------------------------
-- All schemas
-----------------------------------------------------------------------------------------

mutual

/-- A value is read by a schema as what the schema takes from it. -/
theorem takes_read {α : Type} (schema : Schema α) (value : Value)
    : Takes (read schema) value (decode? schema value) := by
  match schema with
  | .natural width => exact takes_natural width value
  | .boolean => exact takes_boolean value
  | .text => exact takes_text "a string" value
  | .optional inner =>
      rw [read, decode?]
      exact takes_nullOr (takes_read inner value)
  | .sequence element => exact takes_sequence (takes_read element) value
  | .exactly count element => exact takes_exactly (takes_read element) count value
  | .choice _ variants => exact takes_choice (gives_readVariant variants variants.names) value
  | .record _ fields _ _ _ =>
      exact takes_record (fun expected => gives_readFields fields expected 0)
        (gives_readMember fields) value

/-- The first elements of a list are read as what the fields take from them. -/
theorem gives_readFields {β σ : Type} (fields : Fields β σ) (expected : String) (index : Nat)
    (values : List Value) (after : List Bytes)
    : ∃ first,
        Gives (readFields fields expected index) (elementTokens (index = 0) values ++ after)
          (elementTokens first (values.drop fields.names.length) ++ after)
          (decodeList? fields values) := by
  match fields, values with
  | .nil, values => exact ⟨_, gives_pure⟩
  | .required name schema rest, [] =>
      exact ⟨true, (gives_nextElement_close _).andThen gives_throw⟩
  | .required name schema rest, value :: values | .defaulted name schema _ rest, value :: values =>
      obtain ⟨first, more⟩ := gives_readFields rest expected (index + 1) values after
      exact ⟨first, (gives_nextElement _ value values).andThen <|
        (takes_read schema value _ (ends_elementTokens values after)).bind fun head _ =>
          more.bind fun tail _ => gives_pure⟩
  | .defaulted name schema standard rest, [] =>
      obtain ⟨first, more⟩ := gives_readFields rest expected (index + 1) [] after
      rw [List.drop_nil] at more ⊢
      exact ⟨first, (gives_nextElement_close _).andThen (more.map (standard, ·))⟩
  | .omissible name schema rest, value :: values =>
      obtain ⟨first, more⟩ := gives_readFields rest expected (index + 1) values after
      refine ⟨first, (gives_nextElement _ value values).andThen (gives_orNull ?_ ?_)⟩
      · rintro rfl
        exact gives_pure.andThen (more.bind fun tail _ => gives_pure)
      · intro other
        rw [decodeList?, nullOr?_of_ne other]
        exact ((takes_read schema value _ (ends_elementTokens values after)).fmap some).bind
          fun head _ => more.bind fun tail _ => gives_pure
  | .omissible name schema rest, [] =>
      obtain ⟨first, more⟩ := gives_readFields rest expected (index + 1) [] after
      rw [List.drop_nil] at more ⊢
      exact ⟨first, (gives_nextElement_close _).andThen (more.map (none, ·))⟩

/-- A member is read into its slot, and passed over if it has none. -/
theorem gives_readMember {β σ : Type} (fields : Fields β σ) (name : String) (value : Value)
    (slots : σ) (after : List Bytes) (ends : Ends after)
    : Gives (readMember fields name slots) ([colon] :: (value.tokens ++ after)) after
        (fill? fields name value slots) := by
  match fields, slots with
  | .nil, () => exact (gives_readByte (by decide)).andThen (gives_skipValue value ends)
  | .required field schema rest, (slot, slots) | .defaulted field schema _ rest, (slot, slots) =>
      rw [readMember, fill?]
      by_cases same : field = name
      · rw [if_pos same, if_pos same]
        exact (gives_readSlot (takes_read schema value) name slot ends).map (·, slots)
      · rw [if_neg same, if_neg same]
        exact (gives_readMember rest name value slots after ends).map (slot, ·)
  | .omissible field schema rest, (slot, slots) =>
      rw [readMember, fill?]
      by_cases same : field = name
      · rw [if_pos same, if_pos same]
        exact (gives_readSlot (takes_nullOr (takes_read schema value)) name slot ends).map (·, slots)
      · rw [if_neg same, if_neg same]
        exact (gives_readMember rest name value slots after ends).map (slot, ·)

/-- A variant is read, with its payload if there is one, as what it takes from that. -/
theorem gives_readVariant {α : Type} (variants : Variants α) (known : List String) (name : String)
    (payload : Option Value) (after : List Bytes) (ends : Ends after)
    : Gives (readVariant variants known name payload.isSome)
        ((payload.elim [] fun value => [colon] :: value.tokens) ++ after) after
        (decodeVariant? variants name payload) := by
  match variants with
  | .nil => exact gives_throw
  | .bare variant value test eq_of_test rest =>
      rw [readVariant, decodeVariant?]
      by_cases same : variant = name
      · rw [if_pos same, if_pos same]
        cases payload with
        | none => exact gives_pure
        | some payload =>
            have unit : Gives readUnit (payload.tokens ++ after) after _ := gives_readUnit
            have taken : bare? value (some payload)
                = (bare? () (some payload)).map fun _ => value := by
              cases payload <;> rfl
            rw [taken]
            exact (gives_readByte (b := colon) (by decide)).andThen (unit.map fun _ => value)
      · rw [if_neg same, if_neg same]
        exact gives_readVariant rest known name payload after ends
  | .carrying variant inner wrap unwrap? wrap_unwrap rest =>
      rw [readVariant, decodeVariant?]
      by_cases same : variant = name
      · rw [if_pos same, if_pos same]
        cases payload with
        | none => exact gives_throw
        | some value =>
            exact (gives_readByte (b := colon) (by decide)).andThen
              ((takes_read inner value after ends).map wrap)
      · rw [if_neg same, if_neg same]
        exact gives_readVariant rest known name payload after ends

end

/-- A text of a value is decoded as what the schema takes from the value, wherever blanks stand. -/
theorem decode_isText {α : Type} (schema : Schema α) {value : Value} {bytes : Bytes}
    (spelled : value.IsText bytes)
    : (decode schema bytes).toOption = decode? schema value := by
  have laid : Laid (value.tokens ++ []) bytes := by rwa [List.append_nil]
  have taken := takes_read schema value [] ends_nil bytes laid
  cases given : decode? schema value with
  | none =>
      rw [given] at taken
      obtain ⟨failure, failed⟩ := taken
      simp only [decode, StateT.run, failed]
      rfl
  | some result =>
      rw [given] at taken
      obtain ⟨rest, laid, read⟩ := taken
      simp only [decode, StateT.run, read, Bind.bind, Except.bind, laid.skipBlank_nil, ↓reduceIte]
      rfl

theorem decode_eq_ok_iff {α : Type} {schema : Schema α} {value : Value} {bytes : Bytes}
    (spelled : value.IsText bytes) {result : α}
    : decode schema bytes = .ok result ↔ decode? schema value = some result := by
  rw [← decode_isText schema spelled]
  cases decode schema bytes <;> simp [Except.toOption]

end Invalidation.Json
