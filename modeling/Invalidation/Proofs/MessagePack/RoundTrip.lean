import Invalidation.Proofs.MessagePack.Marker

/-! Reading gives back what was written, for every schema whose names can be told apart and every
value whose numbers and lengths the format holds. What follows in the document is left unread.
-/

namespace Invalidation

-----------------------------------------------------------------------------------------
-- Schemas and values that can be read back
-----------------------------------------------------------------------------------------

/-- Names that a document tells apart: each of them once, and each of a length that is held. -/
structure Legible (names : List String) : Prop where
  distinct : names.Nodup
  short : ∀ name ∈ names, (Bytes.ofText name).length < 2 ^ 32

theorem Legible.of_cons {name : String} {names : List String} (legible : Legible (name :: names))
    : Legible names :=
  ⟨(List.nodup_cons.1 legible.distinct).2,
    fun other member => legible.short other (List.mem_cons_of_mem _ member)⟩

mutual

/-- Whether documents of the schema can be read where so many levels are left: names are told apart,
and so is an optional value from none.
-/
def Schema.Sound {α : Type} : Schema α → Nat → Prop
  | .natural _, _ | .boolean, _ | .text, _ => True
  | .optional inner, depth => inner.absent?.isNone = true ∧ inner.Sound depth
  | .sequence element, depth | .exactly _ element, depth =>
      1 < depth ∧ element.Sound (depth - 1)
  | .choice _ variants, depth => Legible variants.names ∧ variants.Sound depth
  | .record _ fields _ _ _, depth =>
      1 < depth ∧ fields.names.length < 2 ^ 32 ∧ Legible fields.names ∧ fields.Sound (depth - 1)

def Fields.Sound {β σ : Type} : Fields β σ → Nat → Prop
  | .nil, _ => True
  | .required _ value rest, depth | .defaulted _ value _ rest, depth =>
      value.Sound depth ∧ rest.Sound depth
  | .omissible _ value rest, depth =>
      value.absent?.isNone = true ∧ value.Sound depth ∧ rest.Sound depth

def Variants.Sound {α : Type} : Variants α → Nat → Prop
  | .nil, _ => True
  | .bare _ _ _ _ rest, depth => rest.Sound depth
  | .carrying _ payload _ _ _ rest, depth => payload.Sound depth ∧ rest.Sound depth

end

mutual

/-- Whether the format holds a value of the schema: its numbers are within their widths, and its
lengths are below 2^32.
-/
def Schema.Holds {α : Type} : Schema α → α → Prop
  | .natural width, value => value < width.limit
  | .boolean, _ => True
  | .text, value => (Bytes.ofText value).length < 2 ^ 32
  | .optional inner, value => ∀ given ∈ value, inner.Holds given
  | .sequence element, values => values.length < 2 ^ 32 ∧ ∀ value ∈ values, element.Holds value
  | .exactly count element, values =>
      values.length = count ∧ count < 2 ^ 32 ∧ ∀ value ∈ values, element.Holds value
  | .choice _ variants, value => variants.Holds value
  | .record _ fields _ parts _, value => fields.Holds (parts value)

def Fields.Holds {β σ : Type} : Fields β σ → β → Prop
  | .nil, () => True
  | .required _ value rest, (head, tail) | .defaulted _ value _ rest, (head, tail) =>
      value.Holds head ∧ rest.Holds tail
  | .omissible _ value rest, (head, tail) =>
      (∀ given ∈ head, value.Holds given) ∧ rest.Holds tail

/-- Some variant stands for the value, and what the first such variant carries is held. -/
def Variants.Holds {α : Type} : Variants α → α → Prop
  | .nil, _ => False
  | .bare _ _ test _ rest, value => test value = true ∨ rest.Holds value
  | .carrying _ payload _ unwrap? _ rest, value =>
      match unwrap? value with
      | some inner => payload.Holds inner
      | none => rest.Holds value

end

/-- Slots that hold the values of all fields. -/
def Fields.filled {β σ : Type} : Fields β σ → β → σ
  | .nil, () => ()
  | .required _ _ rest, (head, tail) | .defaulted _ _ _ rest, (head, tail) =>
      (some head, rest.filled tail)
  | .omissible _ _ rest, (head, tail) => (head.map some, rest.filled tail)

theorem Fields.finish_filled {β σ : Type} (fields : Fields β σ) (values : β)
    : fields.finish (fields.filled values) = .ok values := by
  match fields, values with
  | .nil, () => rfl
  | .required name value rest, (head, tail) =>
      rw [filled, finish, rest.finish_filled tail]
      rfl
  | .defaulted name value standard rest, (head, tail) =>
      rw [filled, finish, rest.finish_filled tail]
      rfl
  | .omissible name value rest, (head, tail) =>
      rw [filled, finish, rest.finish_filled tail]
      cases head <;> rfl

namespace MessagePack

variable {α : Type} {depth : Nat} {bytes : Bytes}

-----------------------------------------------------------------------------------------
-- Values without elements
-----------------------------------------------------------------------------------------

theorem reads_readNatural {width : Width} {value : Nat} (small : value < width.limit)
    : Reads (readNatural width) (writeNatural value) value := by
  refine (reads_natural (Nat.lt_of_lt_of_le small width.limit_le)).then ?_
  dsimp only
  rw [if_pos small]
  exact .pure value

theorem reads_readBoolean (value : Bool)
    : Reads readBoolean [if value then 0xC3 else 0xC2] value :=
  (reads_boolean value).then (.pure value)

theorem reads_readText {text : String} (small : (Bytes.ofText text).length < 2 ^ 32)
    : Reads (readText depth) (writeText text) text := by
  refine (reads_text small).then ?_
  dsimp only
  rw [Bytes.text?_ofText]
  exact .pure text

/-- Elements that are read one by one are read as a sequence, by induction on them. -/
theorem reads_readMany {element : Reader Failure α} {form : α → Bytes} {values : List α}
    (each : ∀ value ∈ values, Reads element (form value) value)
    : Reads (readMany element values.length) (values.map form).flatten values := by
  induction values with
  | nil => exact .pure []
  | cons head tail ih =>
      rw [List.forall_mem_cons] at each
      exact each.1.bind ((ih each.2).then (.pure _))

/-- A value that may be missing is read, unless nil stands in its place. -/
theorem reads_optional {reader : Reader Failure α} {form : α → Bytes} {value : Option α}
    (reads : ∀ given ∈ value, Reads reader (form given) given)
    (present : ∀ given ∈ value, Sees readNil (form given) false)
    : Reads (do
          if ← readNil then return none
          return some (← reader))
        (value.elim nil form) value := by
  cases value with
  | none => exact fun rest => rfl
  | some given =>
      refine (present given rfl).bind ?_
      exact (reads given rfl).then (.pure _)

-----------------------------------------------------------------------------------------
-- Members of a map
-----------------------------------------------------------------------------------------

variable {β σ τ : Type}

theorem isHead_name {name other : String}
    : Label.isHead name (.name (Bytes.ofText other)) = decide (other = name) := by
  unfold Label.isHead
  by_cases same : other = name
  · simp [same]
  · simpa [same] using fun spelled => same (Bytes.ofText_inj spelled)

theorem reads_fieldLabel {name : String} (short : (Bytes.ofText name).length < 2 ^ 32)
    : Reads (readFieldLabel depth) (writeText name) (.name (Bytes.ofText name)) :=
  (reads_text short).then (.pure _)

theorem reads_variantLabel {name : String} (short : (Bytes.ofText name).length < 2 ^ 32)
    : Reads (readVariantLabel depth) (writeText name) (.name (Bytes.ofText name)) := by
  refine (reads_text short).then ?_
  dsimp only
  rw [Bytes.text?_ofText]
  exact .pure _

/-- Reads a member of a map with its label. -/
def readLabelled (fields : Fields β σ) (depth : Nat) (slots : σ) : Reader Failure σ := do
  readMember fields (← readFieldLabel depth) slots depth

theorem reads_readLabelled_iff {fields : Fields β σ} {slots filled : σ} {name : String}
    (short : (Bytes.ofText name).length < 2 ^ 32)
    : Reads (readLabelled fields depth slots) (writeText name ++ bytes) filled
      ↔ Reads (readMember fields (.name (Bytes.ofText name)) slots depth) bytes filled := by
  have step (rest : Bytes)
      : readLabelled fields depth slots (writeText name ++ bytes ++ rest)
        = readMember fields (.name (Bytes.ofText name)) slots depth (bytes ++ rest) := by
    simp only [readLabelled, Bind.bind, StateT.bind, List.append_assoc,
      reads_fieldLabel short (bytes ++ rest), Except.bind]
  simp only [Reads, step]

/-- An empty slot takes what is read. -/
theorem reads_readSlot {reader : Reader Failure α} {value : α} (name : String)
    (reads : Reads reader bytes value)
    : Reads (readSlot name none reader) bytes (some value) :=
  reads.then (.pure _)

/-- Members that are read one by one, from slots as they are before to slots as they are then. -/
def ReadsEach (member : σ → Reader Failure σ) : List Bytes → σ → σ → Prop
  | [], before, after => after = before
  | bytes :: rest, before, after =>
      ∃ between, Reads (member before) bytes between ∧ ReadsEach member rest between after

theorem ReadsEach.reads {member : σ → Reader Failure σ} {members : List Bytes}
    {before after : σ} (each : ReadsEach member members before after)
    : Reads (readMembers member members.length before) members.flatten after := by
  induction members generalizing before with
  | nil =>
      obtain rfl : after = before := each
      exact .pure after
  | cons bytes rest ih =>
      obtain ⟨between, first, later⟩ := each
      exact first.bind (ih later)

/-- Each of the members begins with one of the names. -/
def Labelled (names : List String) (members : List Bytes) : Prop :=
  ∀ member ∈ members, ∃ name ∈ names, ∃ bytes, member = writeText name ++ bytes

theorem Labelled.weaken {names : List String} {members : List Bytes}
    (labelled : Labelled names members) (name : String)
    : Labelled (name :: names) members := by
  intro member written
  obtain ⟨other, known, form⟩ := labelled member written
  exact ⟨other, List.mem_cons_of_mem _ known, form⟩

theorem Labelled.cons {names : List String} {members : List Bytes}
    (labelled : Labelled names members) (name : String) (bytes : Bytes)
    : Labelled (name :: names) ((writeText name ++ bytes) :: members) :=
  List.forall_mem_cons.2 ⟨⟨name, List.mem_cons_self .., bytes, rfl⟩, labelled.weaken name⟩

theorem labelled_writeFields {β σ : Type} (fields : Fields β σ) (values : β)
    : Labelled fields.names (writeFields true fields values) := by
  match fields, values with
  | .nil, () => exact fun _ written => nomatch written
  | .required name value rest, (head, tail) => exact (labelled_writeFields rest tail).cons name _
  | .defaulted name value standard rest, (head, tail) =>
      exact (labelled_writeFields rest tail).cons name _
  | .omissible name value rest, (some head, tail) =>
      exact (labelled_writeFields rest tail).cons name _
  | .omissible name value rest, (none, tail) => exact (labelled_writeFields rest tail).weaken name

/-- Fields of which the first has the name, and fills its slot by the reader. -/
structure Begins (fields : Fields α (Option τ × σ)) (name : String) (reader : Reader Failure τ)
    (rest : Fields β σ) (depth : Nat) : Prop where
  names : fields.names = name :: rest.names
  member
    : ∀ label slot slots,
        readMember fields label (slot, slots) depth
        = if label.isHead name then do return (← readSlot name slot reader, slots)
          else do return (slot, ← readMember rest label.tail slots depth)

/-- Members that later fields take are read past the first field, and leave its slot alone; by
induction on the members.
-/
theorem ReadsEach.pass {fields : Fields α (Option τ × σ)} {head : String}
    {reader : Reader Failure τ} {rest : Fields β σ} (begins : Begins fields head reader rest depth)
    (legible : Legible fields.names) {members : List Bytes} {before after : σ}
    (each : ReadsEach (readLabelled rest depth) members before after)
    (labelled : Labelled rest.names members)
    (slot : Option τ)
    : ReadsEach (readLabelled fields depth) members (slot, before) (slot, after) := by
  induction members generalizing before with
  | nil =>
      obtain rfl : after = before := each
      rfl
  | cons member members ih =>
      rw [Labelled, List.forall_mem_cons] at labelled
      obtain ⟨⟨name, known, bytes, rfl⟩, others⟩ := labelled
      obtain ⟨between, first, later⟩ := each
      refine ⟨(slot, between), ?_, ih later others⟩
      rw [begins.names] at legible
      have short := legible.of_cons.short name known
      have different : name ≠ head := by
        rintro rfl
        exact (List.nodup_cons.1 legible.distinct).1 known
      rw [reads_readLabelled_iff short] at first ⊢
      rw [begins.member, isHead_name, if_neg (by simpa using different)]
      exact first.then (.pure _)

/-- The first field takes the first member, and later fields the others. -/
theorem ReadsEach.take {fields : Fields α (Option τ × σ)} {name : String}
    {reader : Reader Failure τ} {rest : Fields β σ} (begins : Begins fields name reader rest depth)
    (legible : Legible fields.names) {value : τ} (first : Reads reader bytes value)
    {members : List Bytes} {before after : σ}
    (each : ReadsEach (readLabelled rest depth) members before after)
    (labelled : Labelled rest.names members)
    : ReadsEach (readLabelled fields depth) ((writeText name ++ bytes) :: members) (none, before)
        (some value, after) := by
  refine ⟨(some value, before), ?_, each.pass begins legible labelled _⟩
  have short := legible.short name (begins.names ▸ List.mem_cons_self ..)
  rw [reads_readLabelled_iff short, begins.member, isHead_name, if_pos (decide_eq_true rfl)]
  exact (reads_readSlot name first).then (.pure _)

theorem length_writeFields_le {β σ : Type} (named : Bool) (fields : Fields β σ) (values : β)
    : (writeFields named fields values).length ≤ fields.names.length := by
  match fields, values with
  | .nil, () => exact Nat.le_refl 0
  | .required name value rest, (head, tail) =>
      exact Nat.succ_le_succ (length_writeFields_le named rest tail)
  | .defaulted name value standard rest, (head, tail) =>
      exact Nat.succ_le_succ (length_writeFields_le named rest tail)
  | .omissible name value rest, (some head, tail) =>
      exact Nat.succ_le_succ (length_writeFields_le named rest tail)
  | .omissible name value rest, (none, tail) =>
      cases named with
      | true => exact Nat.le_succ_of_le (length_writeFields_le true rest tail)
      | false => exact Nat.succ_le_succ (length_writeFields_le false rest tail)

-----------------------------------------------------------------------------------------
-- Variants
-----------------------------------------------------------------------------------------

/-- The document of a variant of the given name, with a payload or without. -/
def variantForm (name : String) : Option Bytes → Bytes
  | none => writeText name
  | some payload => mapHead 1 ++ (writeText name ++ payload)

/-- A document is that of one of the variants, which is read from it as the value. -/
def ReadsVariant (variants : Variants α) (depth : Nat) (bytes : Bytes) (value : α) : Prop :=
  ∃ name ∈ variants.names,
    ∃ payload : Option Bytes,
      bytes = variantForm name payload
      ∧ ∀ known,
          Reads (readVariant variants known (.name (Bytes.ofText name)) payload.isSome depth)
            (payload.getD []) value

/-- A variant is read past one of another name. -/
theorem ReadsVariant.pass {rest variants : Variants α} {skipped : String}
    (names : variants.names = skipped :: rest.names) (legible : Legible variants.names)
    (passes
      : ∀ name known payload,
          name ≠ skipped
          → readVariant variants known (.name (Bytes.ofText name)) payload depth
            = readVariant rest known (.name (Bytes.ofText name)) payload depth)
    {value : α} (reads : ReadsVariant rest depth bytes value)
    : ReadsVariant variants depth bytes value := by
  obtain ⟨name, known, payload, form, read⟩ := reads
  have different : name ≠ skipped := by
    rintro rfl
    rw [names] at legible
    exact (List.nodup_cons.1 legible.distinct).1 known
  refine ⟨name, names ▸ List.mem_cons_of_mem _ known, payload, form, fun listed => ?_⟩
  rw [passes name listed _ different]
  exact read listed

/-- What is read as one of the variants is read as the choice. -/
theorem ReadsVariant.reads {variants : Variants α} (legible : Legible variants.names)
    {value : α} (reads : ReadsVariant variants depth bytes value) (choice : String)
    : Reads (read (.choice choice variants) depth) bytes value := by
  obtain ⟨name, known, payload, rfl, read⟩ := reads
  have label := @reads_variantLabel depth name (legible.short name known)
  rw [MessagePack.read]
  cases payload with
  | none => exact (sees_noMap name).bind (label.then (read _))
  | some payload => exact (reads_mapCount (by decide)).bind (label.bind (read _))

/-- A variant is never written as nil. -/
theorem ReadsVariant.sees {variants : Variants α} (legible : Legible variants.names)
    {value : α} (reads : ReadsVariant variants depth bytes value)
    : Sees readNil bytes false := by
  obtain ⟨name, known, payload, rfl, -⟩ := reads
  cases payload with
  | none => exact (@reads_text 2 name (legible.short name known)).sees nofun
  | some payload =>
      exact ((@reads_mapHead 2 1 (by decide) (by decide)).sees nofun).append _

-----------------------------------------------------------------------------------------
-- All schemas
-----------------------------------------------------------------------------------------

/-- A value is read back from its document, which is not nil unless the value is optional. -/
structure ReadsBack (named : Bool) (schema : Schema α) (depth : Nat) (value : α) : Prop where
  reads : Reads (read schema depth) (write named schema value) value
  sees : schema.absent?.isNone = true → Sees readNil (write named schema value) false

/-- Elements that are read back make up a sequence that is. -/
theorem ReadsBack.sequence {named : Bool} {element : Schema α} {values : List α}
    (deep : 1 < depth) (small : values.length < 2 ^ 32)
    (each : ∀ value ∈ values, ReadsBack named element (depth - 1) value)
    : ReadsBack named (.sequence element) depth values where
  reads := by
    rw [read, write]
    exact (reads_arrayHead small deep).bind
      (reads_readMany fun value member => (each value member).reads)
  sees := fun _ => by
    rw [write]
    exact ((reads_arrayHead small deep).sees (by rintro ⟨⟩)).append _

theorem ReadsBack.exactly {named : Bool} {element : Schema α} {values : List α}
    (deep : 1 < depth) (small : values.length < 2 ^ 32)
    (each : ∀ value ∈ values, ReadsBack named element (depth - 1) value)
    : ReadsBack named (.exactly values.length element) depth values where
  reads := by
    rw [read, write]
    refine (reads_arrayHead small deep).bind ?_
    have all := reads_readMany fun value member => (each value member).reads
    dsimp only
    rw [Nat.min_self]
    refine all.then ?_
    rw [if_neg (Nat.lt_irrefl _), if_neg (Nat.lt_irrefl _)]
    exact .pure values
  sees := fun _ => by
    rw [write]
    exact ((reads_arrayHead small deep).sees (by rintro ⟨⟩)).append _

/-- A record is read back from a map of the members that its fields take one by one, or from an
array of the elements that they take.
-/
theorem ReadsBack.record {σ : Type} {named : Bool} {name : String} {fields : Fields β σ}
    {make : β → α} {parts : α → β} {make_parts : ∀ value, make (parts value) = value} {value : α}
    (deep : 1 < depth) (few : fields.names.length < 2 ^ 32)
    (members
      : ReadsEach (readLabelled fields (depth - 1)) (writeFields true fields (parts value))
          fields.empty (fields.filled (parts value)))
    (elements
      : ∀ expected index,
          Reads
            (readFields fields expected index (writeFields false fields (parts value)).length
              (depth - 1))
            (writeFields false fields (parts value)).flatten (parts value, 0))
    : ReadsBack named (.record name fields make parts make_parts) depth value := by
  have small := Nat.lt_of_le_of_lt (length_writeFields_le named fields (parts value)) few
  cases named with
  | true =>
      refine ⟨?_, fun _ => ?_⟩
      · rw [read, write]
        refine (reads_mapHead small deep).bind (members.reads.then ?_)
        rw [fields.finish_filled (parts value)]
        dsimp only
        rw [make_parts]
        exact .pure value
      · rw [write]
        exact ((reads_mapHead small deep).sees (by rintro ⟨⟩)).append _
  | false =>
      refine ⟨?_, fun _ => ?_⟩
      · rw [read, write]
        refine (reads_arrayHead small deep).bind ((elements _ _).then ?_)
        dsimp only
        rw [if_pos rfl, make_parts]
        exact .pure value
      · rw [write]
        exact ((reads_arrayHead small deep).sees (by rintro ⟨⟩)).append _

mutual

/-- Every value that is held is read back, by induction on its schema. -/
theorem readsBack {α : Type} (named : Bool) (schema : Schema α) {depth : Nat} {value : α}
    (sound : schema.Sound depth) (holds : schema.Holds value)
    : ReadsBack named schema depth value := by
  match schema, value, sound, holds with
  | .natural width, value, sound, holds =>
      have small : value < width.limit := by simpa only [Schema.Holds] using holds
      refine ⟨?_, fun _ => ?_⟩
      · rw [read, write]
        exact reads_readNatural small
      · rw [write]
        exact (reads_natural (Nat.lt_of_lt_of_le small width.limit_le)).sees_of_plain nofun
  | .boolean, value, sound, holds =>
      refine ⟨?_, fun _ => ?_⟩
      · rw [read, write]
        exact reads_readBoolean value
      · rw [write]
        exact (reads_boolean value).sees_of_plain nofun
  | .text, value, sound, holds =>
      have small : (Bytes.ofText value).length < 2 ^ 32 := by simpa only [Schema.Holds] using holds
      refine ⟨?_, fun _ => ?_⟩
      · rw [read, write]
        exact reads_readText small
      · rw [write]
        exact (@reads_text depth value small).sees nofun
  | .optional inner, value, sound, holds =>
      obtain ⟨told, sound⟩ : inner.absent?.isNone = true ∧ inner.Sound depth := by
        simpa only [Schema.Sound] using sound
      have back (given) (member : given ∈ value) : ReadsBack named inner depth given := by
        rw [Schema.Holds] at holds
        exact readsBack named inner sound (holds given member)
      refine ⟨?_, fun absent => nomatch absent⟩
      have form : write named (.optional inner) value = value.elim nil (write named inner) := by
        cases value <;> rw [write] <;> rfl
      rw [read, form]
      exact reads_optional (fun given member => (back given member).reads)
        (fun given member => (back given member).sees told)
  | .sequence element, value, sound, holds =>
      obtain ⟨deep, sound⟩ : 1 < depth ∧ element.Sound (depth - 1) := by
        simpa only [Schema.Sound] using sound
      rw [Schema.Holds] at holds
      exact .sequence deep holds.1 fun value member =>
        readsBack named element sound (holds.2 value member)
  | .exactly count element, value, sound, holds =>
      obtain ⟨deep, elementSound⟩ : 1 < depth ∧ element.Sound (depth - 1) := by
        simpa only [Schema.Sound] using sound
      rw [Schema.Holds] at holds
      obtain ⟨rfl, small, each⟩ := holds
      exact .exactly deep small fun value member =>
        readsBack named element elementSound (each value member)
  | .choice name variants, value, sound, holds =>
      obtain ⟨legible, sound⟩ : Legible variants.names ∧ variants.Sound depth := by
        simpa only [Schema.Sound] using sound
      rw [Schema.Holds] at holds
      have back := readsVariant named variants legible sound holds
      refine ⟨?_, fun _ => ?_⟩
      · rw [write]
        exact back.reads legible name
      · rw [write]
        exact back.sees legible
  | .record name fields make parts make_parts, value, sound, holds =>
      rw [Schema.Sound] at sound
      rw [Schema.Holds] at holds
      obtain ⟨deep, few, legible, sound⟩ := sound
      exact .record deep few (readsEach fields legible sound holds)
        (reads_readFields fields sound holds)

/-- Members are read back into their slots, by induction on the fields. -/
theorem readsEach {β σ : Type} (fields : Fields β σ) {depth : Nat} {values : β}
    (legible : Legible fields.names) (sound : fields.Sound depth) (holds : fields.Holds values)
    : ReadsEach (readLabelled fields depth) (writeFields true fields values) fields.empty
        (fields.filled values) := by
  match fields, values, legible, sound, holds with
  | .nil, (), _, _, _ => rfl
  | .required name value rest, (head, tail), legible, sound, holds =>
      rw [Fields.Sound] at sound
      rw [Fields.Holds] at holds
      have begins : Begins (.required name value rest) name (read value depth) rest depth :=
        ⟨rfl, fun _ _ _ => rfl⟩
      have first := (readsBack true value sound.1 holds.1).reads
      exact (readsEach rest legible.of_cons sound.2 holds.2).take begins legible first
        (labelled_writeFields rest tail)
  | .defaulted name value standard rest, (head, tail), legible, sound, holds =>
      rw [Fields.Sound] at sound
      rw [Fields.Holds] at holds
      have begins
          : Begins (.defaulted name value standard rest) name (read value depth) rest depth :=
        ⟨rfl, fun _ _ _ => rfl⟩
      have first := (readsBack true value sound.1 holds.1).reads
      exact (readsEach rest legible.of_cons sound.2 holds.2).take begins legible first
        (labelled_writeFields rest tail)
  | .omissible name value rest, (given, tail), legible, sound, holds =>
      rw [Fields.Sound] at sound
      rw [Fields.Holds] at holds
      have begins
          : Begins (.omissible name value rest) name
              (do
                if ← readNil then return none
                return some (← read value depth))
              rest depth :=
        ⟨rfl, fun _ _ _ => rfl⟩
      have later := readsEach rest legible.of_cons sound.2.2 holds.2
      cases given with
      | none => exact later.pass begins legible (labelled_writeFields rest tail) none
      | some head =>
          have back := readsBack true value sound.2.1 (holds.1 head rfl)
          refine later.take begins legible ?_ (labelled_writeFields rest tail)
          exact (back.sees sound.1).bind (back.reads.then (.pure _))

/-- Elements are read back in the order of their fields, by induction on the fields. -/
theorem reads_readFields {β σ : Type} (fields : Fields β σ) {depth : Nat} {values : β}
    (sound : fields.Sound depth) (holds : fields.Holds values) (expected : String) (index : Nat)
    : Reads
        (readFields fields expected index (writeFields false fields values).length depth)
        (writeFields false fields values).flatten (values, 0) := by
  match fields, values, sound, holds with
  | .nil, (), _, _ => exact .pure _
  | .required name value rest, (head, tail), sound, holds =>
      rw [Fields.Sound] at sound
      rw [Fields.Holds] at holds
      have first := (readsBack false value sound.1 holds.1).reads
      have later := reads_readFields rest sound.2 holds.2 expected (index + 1)
      have form
          : writeFields false (.required name value rest) (head, tail)
            = write false value head :: writeFields false rest tail := rfl
      rw [form, readFields, List.length_cons, if_neg (Nat.succ_ne_zero _)]
      exact first.bind (later.then (.pure _))
  | .defaulted name value standard rest, (head, tail), sound, holds =>
      rw [Fields.Sound] at sound
      rw [Fields.Holds] at holds
      have first := (readsBack false value sound.1 holds.1).reads
      have later := reads_readFields rest sound.2 holds.2 expected (index + 1)
      have form
          : writeFields false (.defaulted name value standard rest) (head, tail)
            = write false value head :: writeFields false rest tail := rfl
      rw [form, readFields, List.length_cons, if_neg (Nat.succ_ne_zero _)]
      exact first.bind (later.then (.pure _))
  | .omissible name value rest, (given, tail), sound, holds =>
      rw [Fields.Sound] at sound
      rw [Fields.Holds] at holds
      have later := reads_readFields rest sound.2.2 holds.2 expected (index + 1)
      cases given with
      | none =>
          have form
              : writeFields false (.omissible name value rest) (none, tail)
                = nil :: writeFields false rest tail := rfl
          have absent : Reads readNil nil true := fun _ => rfl
          rw [form, readFields, List.length_cons, if_neg (Nat.succ_ne_zero _)]
          refine absent.bind ?_
          dsimp only
          rw [if_pos rfl]
          exact (Reads.pure none).bind (later.then (.pure _))
      | some head =>
          have form
              : writeFields false (.omissible name value rest) (some head, tail)
                = write false value head :: writeFields false rest tail := rfl
          have back := readsBack false value sound.2.1 (holds.1 head rfl)
          have first : Reads (some <$> read value depth) (write false value head) (some head) :=
            back.reads.map some
          rw [form, readFields, List.length_cons, if_neg (Nat.succ_ne_zero _)]
          exact ((back.sees sound.1).append _).bind (first.bind (later.then (.pure _)))

/-- The first variant that stands for a value is the one that is read back, by induction on the
variants.
-/
theorem readsVariant {α : Type} (named : Bool) (variants : Variants α) {depth : Nat} {value : α}
    (legible : Legible variants.names) (sound : variants.Sound depth)
    (holds : variants.Holds value)
    : ReadsVariant variants depth (writeVariant named variants value) value := by
  match variants, legible, sound, holds with
  | .nil, _, _, holds => exact holds.elim
  | .bare name own test eq_of_test rest, legible, sound, holds =>
      rw [Variants.Sound] at sound
      rw [Variants.Holds] at holds
      rw [writeVariant]
      split
      · rename_i same
        obtain rfl := eq_of_test value same
        refine ⟨name, List.mem_cons_self .., none, rfl, fun known => ?_⟩
        rw [readVariant, isHead_name, if_pos (decide_eq_true rfl)]
        exact .pure _
      · rename_i other
        have later := readsVariant named rest legible.of_cons sound (holds.resolve_left other)
        refine later.pass rfl legible fun skipped known payload different => ?_
        rw [readVariant, isHead_name, if_neg (by simpa using different)]
        rfl
  | .carrying name payload wrap unwrap? wrap_unwrap rest, legible, sound, holds =>
      rw [Variants.Sound] at sound
      rw [Variants.Holds] at holds
      rw [writeVariant]
      cases carried : unwrap? value with
      | some inner =>
          rw [carried] at holds
          have back := (readsBack named payload sound.1 holds).reads
          have form
              : mapHead 1 ++ writeText name ++ write named payload inner
                = variantForm name (some (write named payload inner)) := List.append_assoc ..
          refine ⟨name, List.mem_cons_self .., some (write named payload inner), form,
            fun known => ?_⟩
          rw [readVariant, isHead_name, if_pos (decide_eq_true rfl)]
          refine back.then ?_
          rw [wrap_unwrap value inner carried]
          exact .pure value
      | none =>
          rw [carried] at holds
          have later := readsVariant named rest legible.of_cons sound.2 holds
          refine later.pass rfl legible fun skipped known payload different => ?_
          rw [readVariant, isHead_name, if_neg (by simpa using different)]
          rfl

end

/-- Decoding gives back a written value that the format holds, and what followed its document. -/
theorem decode_write {schema : Schema α} (named : Bool) (sound : schema.Sound depthLimit)
    {value : α} (holds : schema.Holds value) (rest : Bytes)
    : decode schema (write named schema value ++ rest) = .ok (value, rest) :=
  (readsBack named schema sound holds).reads rest

end MessagePack

end Invalidation
