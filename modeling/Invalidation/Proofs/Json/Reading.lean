import Invalidation.Json.Read
import Invalidation.Proofs.Json.Lexeme

/-! What readers make of tokens, however these are laid out in a text. Readers that follow each other
take their tokens one after the other, and fail together if one of them does.
-/

namespace Invalidation.Json

-----------------------------------------------------------------------------------------
-- Texts of tokens
-----------------------------------------------------------------------------------------

section

variable {b : UInt8} {token bytes rest : Bytes} {tokens after : List Bytes}

theorem Laid.skipBlank_nil (laid : Laid [] bytes)
    : skipBlank bytes = [] := by
  cases laid with
  | nil blank =>
      have all : (bytes ++ []).dropWhile isBlank = [].dropWhile isBlank :=
        List.dropWhile_append_of_pos blank
      rwa [List.append_nil] at all

/-- Behind the blanks stands the first token, and behind that a text of those after it. -/
theorem Laid.skipBlank_cons (laid : Laid ((b :: token) :: after) bytes) (solid : isBlank b = false)
    : ∃ rest,
        Laid after rest
        ∧ skipBlank bytes = b :: (token ++ rest)
        ∧ token.length + rest.length < bytes.length := by
  generalize spelled : (b :: token) :: after = tokens at laid
  cases laid with
  | nil => cases spelled
  | @cons gap _ _ rest blank laid =>
      obtain ⟨rfl, rfl⟩ := List.cons.inj spelled
      refine ⟨rest, laid, ?_, ?_⟩
      · rw [skipBlank, List.append_assoc, List.dropWhile_append_of_pos fun b member => blank b member,
          List.cons_append, List.dropWhile_cons_of_neg (by simp [solid])]
      · simp only [List.length_append, List.length_cons]
        omega

/-- A token needs no blanks before it. -/
theorem Laid.tight (laid : Laid tokens rest)
    : Laid (token :: tokens) (token ++ rest) := by
  rw [← List.nil_append token]
  exact .cons nofun laid

/-- Tokens are a text of themselves, without any blanks. -/
theorem laid_flatten (tokens : List Bytes)
    : Laid tokens tokens.flatten := by
  induction tokens with
  | nil => exact .nil nofun
  | cons token rest ih => exact ih.tight

/-- A text is at least as long as its tokens, by induction on them. -/
theorem Laid.length_le (laid : Laid tokens bytes)
    : tokens.flatten.length ≤ bytes.length := by
  induction laid with
  | nil blank => exact Nat.zero_le _
  | cons blank rest ih =>
      simp only [List.flatten_cons, List.length_append]
      omega

/-- Tokens before which a number may stand, since no text of them can be taken for the rest of it. -/
def Ends (after : List Bytes) : Prop := ∀ bytes, Laid after bytes → Bounded bytes

theorem goesOn_of_isBlank (blank : isBlank b = true)
    : goesOn b = false := by
  simp only [isBlank, Bool.or_eq_true, decide_eq_true_eq] at blank
  rcases blank with ((rfl | rfl) | rfl) | rfl <;> decide

theorem bounded_of_blank {gap : Bytes} (blank : Blank gap) (bounded : Bounded rest)
    : Bounded (gap ++ rest) := by
  intro b first
  cases gap with
  | nil => exact bounded b first
  | cons c gap =>
      obtain rfl : c = b := by simpa using first
      exact goesOn_of_isBlank (blank c List.mem_cons_self)

theorem ends_nil : Ends [] := by
  rintro _ ⟨blank⟩
  intro b first
  exact goesOn_of_isBlank (blank b (List.mem_of_mem_head? first))

theorem ends_cons (other : goesOn b = false)
    : Ends ((b :: token) :: after) := by
  intro bytes laid
  generalize spelled : (b :: token) :: after = tokens at laid
  cases laid with
  | nil => cases spelled
  | cons blank laid =>
      obtain ⟨rfl, rfl⟩ := List.cons.inj spelled
      rw [List.append_assoc]
      apply bounded_of_blank blank
      rintro _ ⟨rfl⟩
      exact other

end

-----------------------------------------------------------------------------------------
-- Readers on tokens
-----------------------------------------------------------------------------------------

section

variable {α β : Type} {reader : Reader Failure α} {next : α → Reader Failure β}
  {tokens between left : List Bytes} {value : α} {value? : Option α} {result? : Option β}

/-- An answer of the value before a text of the tokens that are left; without a value, a failure. -/
def Answers (left : List Bytes) (answer : Except Failure (α × Bytes)) : Option α → Prop
  | some value => ∃ rest, Laid left rest ∧ answer = .ok (value, rest)
  | none => ∃ failure, answer = .error failure

/-- Where the tokens stand, the reader gives the value and moves to those that are left; without a
value it fails.
-/
def Gives (reader : Reader Failure α) (tokens left : List Bytes) (value? : Option α)
    : Prop :=
  ∀ bytes, Laid tokens bytes → Answers left (reader bytes) value?

theorem answers_of_toOption {answer : Except Failure (α × Bytes)} {rest : Bytes}
    (laid : Laid left rest) (same : answer.toOption = value?.map (·, rest))
    : Answers left answer value? := by
  cases answer with
  | error failure =>
      cases value? with
      | none => exact ⟨failure, rfl⟩
      | some value => cases same
  | ok pair =>
      cases value? with
      | none => cases same
      | some value => exact ⟨rest, laid, congrArg Except.ok (Option.some.inj same)⟩

theorem gives_pure : Gives (pure value) tokens tokens (some value) :=
  fun bytes laid => ⟨bytes, laid, rfl⟩

theorem gives_throw {failure : Failure}
    : Gives (throw failure : Reader Failure α) tokens left none :=
  fun _ _ => ⟨failure, rfl⟩

theorem Gives.bind {result : α → Option β} (first : Gives reader tokens between value?)
    (second : ∀ value, value? = some value → Gives (next value) between left (result value))
    : Gives (reader >>= next) tokens left (value?.bind result) := by
  intro bytes laid
  have found := first bytes laid
  cases value? with
  | none =>
      obtain ⟨failure, failed⟩ := found
      refine ⟨failure, ?_⟩
      simp only [Bind.bind, StateT.bind, failed, Except.bind]
  | some value =>
      obtain ⟨rest, laid, read⟩ := found
      have goesOn : (reader >>= next) bytes = next value rest := by
        simp only [Bind.bind, StateT.bind, read, Except.bind]
      rw [Option.bind_some, goesOn]
      exact second value rfl rest laid

theorem Gives.andThen (first : Gives reader tokens between (some value))
    (second : Gives (next value) between left result?)
    : Gives (reader >>= next) tokens left result? := by
  have both : Gives (reader >>= next) tokens left ((some value).bind fun _ => result?) :=
    first.bind fun _ same => Option.some.inj same ▸ second
  exact both

theorem Gives.fail (first : Gives reader tokens left none)
    : Gives (reader >>= next) tokens left none := by
  have both : Gives (reader >>= next) tokens left ((none : Option α).bind fun _ => none) :=
    first.bind nofun
  exact both

/-- A sequence fails where its second reader does, whatever the first one gave. -/
theorem Gives.thenFail (first : Gives reader tokens between value?)
    (second : ∀ value, Gives (next value) between left none)
    : Gives (reader >>= next) tokens left none := by
  have both : Gives (reader >>= next) tokens left (value?.bind fun _ => none) :=
    first.bind fun value _ => second value
  rwa [Option.bind_fun_none] at both

theorem Gives.map (given : Gives reader tokens left value?) (f : α → β)
    : Gives (reader >>= fun value => pure (f value)) tokens left (value?.map f) := by
  rw [Option.map_eq_bind]
  exact given.bind fun _ _ => gives_pure

/-- What is closed after a value takes nothing from it. -/
theorem Gives.closing {close : Reader Failure Unit} (given : Gives reader tokens between value?)
    (closed : Gives close between left (some ())) (make : α → β)
    : Gives (do let value ← reader; close; return make value) tokens left (value?.map make) := by
  rw [Option.map_eq_bind]
  exact given.bind fun _ _ => closed.andThen gives_pure

theorem Gives.fmap (given : Gives reader tokens left value?) (f : α → β)
    : Gives (f <$> reader) tokens left (value?.map f) := by
  rw [← bind_pure_comp]
  exact given.map f

/-- A reader may first look at the text, to measure it; it is at least as long as the tokens. -/
theorem gives_get {readWith : Bytes → Reader Failure α}
    (given
      : ∀ bytes, tokens.flatten.length ≤ bytes.length → Gives (readWith bytes) tokens left value?)
    : Gives (get >>= readWith) tokens left value? :=
  fun bytes laid => given bytes laid.length_le bytes laid

end

-----------------------------------------------------------------------------------------
-- Punctuation
-----------------------------------------------------------------------------------------

section

variable {b c : UInt8} {token : Bytes} {after left : List Bytes}

theorem gives_peek (solid : isBlank b = false)
    : Gives peek ((b :: token) :: after) ((b :: token) :: after) (some b) := by
  intro bytes laid
  obtain ⟨rest, laid, found, -⟩ := laid.skipBlank_cons solid
  refine ⟨_, laid.tight, ?_⟩
  rw [peek, found]
  rfl

theorem gives_readByte (solid : isBlank b = false)
    : Gives (readByte b) ([b] :: after) after (some ()) := by
  intro bytes laid
  obtain ⟨rest, laid, found, -⟩ := laid.skipBlank_cons solid
  refine ⟨rest, laid, ?_⟩
  rw [readByte, found]
  exact if_pos rfl

theorem gives_readByte_of_ne (solid : isBlank b = false) (other : b ≠ c)
    : Gives (readByte c) ((b :: token) :: after) left none := by
  intro bytes laid
  obtain ⟨rest, -, found, -⟩ := laid.skipBlank_cons solid
  refine ⟨.malformed, ?_⟩
  rw [readByte, found]
  exact if_neg other

theorem readWord_append (word rest : Bytes)
    : readWord word (word ++ rest) = .ok rest := by
  induction word with
  | nil => rfl
  | cons w word ih => rw [List.cons_append, readWord, if_pos rfl, ih]

theorem gives_readNull
    : Gives readNull ((letter 'n' :: afterN) :: after) after (some true) := by
  intro bytes laid
  obtain ⟨rest, laid, found, -⟩ := laid.skipBlank_cons (by decide)
  refine ⟨rest, laid, ?_⟩
  rw [readNull, found]
  simp only [↓reduceIte, readWord_append, Except.map]

theorem gives_readNull_of_ne (solid : isBlank b = false) (other : b ≠ letter 'n')
    : Gives readNull ((b :: token) :: after) ((b :: token) :: after) (some false) := by
  intro bytes laid
  obtain ⟨rest, laid, found, -⟩ := laid.skipBlank_cons solid
  refine ⟨_, laid.tight, ?_⟩
  rw [readNull, found]
  exact if_neg other

end

-----------------------------------------------------------------------------------------
-- Values without parts
-----------------------------------------------------------------------------------------

/-- The first byte of a value, which tells what kind of value it is. -/
def Value.lead : Value → UInt8
  | .null => letter 'n'
  | .boolean truth => if truth then letter 't' else letter 'f'
  | .number numeral => if numeral.negative then minus else numeral.whole.bytes.headD zero
  | .text _ => quote
  | .list _ => openList
  | .object _ => openObject

theorem Numeral.lead_isNumeral (numeral : Numeral)
    : ((Value.number numeral).lead = minus || isDigit (Value.number numeral).lead) = true := by
  obtain ⟨b, tail, spelled⟩ := List.exists_cons_of_ne_nil numeral.whole.nonempty
  have digit : isDigit b = true := numeral.whole.areDigits b (by simp [spelled])
  cases negative : numeral.negative <;> simp [Value.lead, negative, spelled, digit]

theorem Numeral.lead_ne (numeral : Numeral) {b : UInt8}
    (other : (b = minus || isDigit b) = false)
    : (Value.number numeral).lead ≠ b := by
  rintro rfl
  exact Bool.false_ne_true (other.symm.trans numeral.lead_isNumeral)

theorem Numeral.spelling_eq_cons (numeral : Numeral)
    : ∃ token, numeral.spelling = (Value.number numeral).lead :: token := by
  obtain ⟨b, tail, spelled⟩ := List.exists_cons_of_ne_nil numeral.whole.nonempty
  cases negative : numeral.negative <;> simp [Numeral.spelling, Value.lead, negative, spelled]

theorem isBlank_of_isNumeral {b : UInt8} (isNumeral : (b = minus || isDigit b) = true)
    : isBlank b = false := by
  cases blank : isBlank b with
  | false => rfl
  | true =>
      simp only [isBlank, Bool.or_eq_true, decide_eq_true_eq] at blank
      rcases blank with ((rfl | rfl) | rfl) | rfl <;> exact absurd isNumeral (by decide)

theorem Value.isBlank_lead (value : Value)
    : isBlank value.lead = false := by
  cases value with
  | null => decide
  | boolean truth => cases truth <;> decide
  | number numeral => exact isBlank_of_isNumeral numeral.lead_isNumeral
  | text parts => rfl
  | list elements => rfl
  | object members => rfl

theorem Value.lead_ne_closeList (value : Value)
    : value.lead ≠ closeList := by
  cases value with
  | null => decide
  | boolean truth => cases truth <;> decide
  | number numeral => exact numeral.lead_ne (by decide)
  | text parts => exact (by decide : quote ≠ closeList)
  | list elements => exact (by decide : openList ≠ closeList)
  | object members => exact (by decide : openObject ≠ closeList)

theorem Value.tokens_eq_cons (value : Value)
    : ∃ token after, value.tokens = (value.lead :: token) :: after := by
  cases value with
  | null => exact ⟨_, _, rfl⟩
  | boolean truth => cases truth <;> exact ⟨_, _, rfl⟩
  | number numeral =>
      obtain ⟨token, spelled⟩ := numeral.spelling_eq_cons
      exact ⟨token, [], by rw [tokens, spelled]⟩
  | text parts => exact ⟨_, _, rfl⟩
  | list elements => exact ⟨_, _, by rw [tokens]; rfl⟩
  | object members => exact ⟨_, _, by rw [tokens]; rfl⟩

theorem Numeral.filter_natural?_eq_none {numeral : Numeral} {width : Width}
    (unnatural : ∀ value, Number.ofLiteral numeral.literal ≠ .ok (.natural value))
    : numeral.natural?.filter (· < width.limit) = none := by
  rw [Option.filter_eq_none_iff]
  intro value spelled held
  have bound := width.limit_le
  exact unnatural value (ofLiteral_eq_natural_iff.2 ⟨spelled, by simp at held; omega⟩)

section

variable {b : UInt8} {token : Bytes} {after left : List Bytes} {width : Width} {expected : String}

/-- A number is read as the natural number that it spells, if the width holds that. -/
theorem gives_readNatural (numeral : Numeral) (ends : Ends after)
    : Gives (readNatural width) (numeral.spelling :: after) after
        (numeral.natural?.filter (· < width.limit)) := by
  intro bytes laid
  obtain ⟨token, spelled⟩ := numeral.spelling_eq_cons
  rw [spelled] at laid
  have isNumeral := numeral.lead_isNumeral
  obtain ⟨rest, laid, found, -⟩ := laid.skipBlank_cons (isBlank_of_isNumeral isNumeral)
  have read
      : Number.read ((Value.number numeral).lead :: (token ++ rest))
        = (Number.ofLiteral numeral.literal).map (·, rest) := by
    rw [← List.cons_append, ← spelled, Number.read,
      Literal.read_spelled numeral (ends rest laid)]
    rfl
  rw [readNatural, found]
  change Answers after (if _ then _ else _) _
  rw [if_pos isNumeral, read]
  cases taken : Number.ofLiteral numeral.literal with
  | error failure =>
      rw [Numeral.filter_natural?_eq_none (by simp [taken])]
      exact ⟨failure, rfl⟩
  | ok number =>
      cases number with
      | natural value =>
          rw [(Numeral.ofLiteral_eq_natural_iff.1 taken).1]
          by_cases small : value < width.limit
          · rw [Option.filter_some_pos (by simpa using small)]
            exact ⟨rest, laid, if_pos small⟩
          · rw [Option.filter_some_neg (by simpa using small)]
            exact ⟨_, if_neg small⟩
      | negative =>
          rw [Numeral.filter_natural?_eq_none (by simp [taken])]
          exact ⟨_, rfl⟩
      | floating =>
          rw [Numeral.filter_natural?_eq_none (by simp [taken])]
          exact ⟨_, rfl⟩

theorem gives_readNatural_of_ne (solid : isBlank b = false)
    (other : (b = minus || isDigit b) = false)
    : Gives (readNatural width) ((b :: token) :: after) left none := by
  intro bytes laid
  obtain ⟨rest, -, found, -⟩ := laid.skipBlank_cons solid
  refine ⟨mismatch width.text (b :: (token ++ rest)), ?_⟩
  rw [readNatural, found]
  exact if_neg (by rw [other]; decide)

theorem gives_readBoolean (truth : Bool)
    : Gives readBoolean ((Value.boolean truth).tokens ++ after) after (some truth) := by
  intro bytes laid
  cases truth with
  | true =>
      obtain ⟨rest, laid, found, -⟩ := laid.skipBlank_cons (by decide)
      refine ⟨rest, laid, ?_⟩
      rw [readBoolean, found]
      simp only [↓reduceIte, readWord_append, Except.map]
  | false =>
      obtain ⟨rest, laid, found, -⟩ := laid.skipBlank_cons (by decide)
      refine ⟨rest, laid, ?_⟩
      rw [readBoolean, found]
      have other : letter 'f' ≠ letter 't' := by decide
      simp only [other, ↓reduceIte, readWord_append, Except.map]

theorem gives_readBoolean_of_ne (solid : isBlank b = false)
    (other : b ≠ letter 't' ∧ b ≠ letter 'f')
    : Gives readBoolean ((b :: token) :: after) left none := by
  intro bytes laid
  obtain ⟨rest, -, found, -⟩ := laid.skipBlank_cons solid
  refine ⟨mismatch "a boolean" (b :: (token ++ rest)), ?_⟩
  rw [readBoolean, found]
  simp only [other, ↓reduceIte]

/-- A string is read behind its opening quote, up to the tokens after it. -/
theorem Laid.quoted {parts : List Quoted.Part} {bytes : Bytes}
    (laid : Laid (Quoted.spelling parts :: after) bytes)
    : ∃ front rest,
        skipBlank bytes = quote :: front
        ∧ Laid after rest
        ∧ (Quoted.read front).toOption = (Quoted.text? parts).map (·, rest) := by
  have spelled : Quoted.spelling parts = quote :: (parts.flatMap Quoted.Part.bytes ++ [quote]) := rfl
  rw [spelled] at laid
  obtain ⟨rest, laid, found, -⟩ := laid.skipBlank_cons (by decide)
  rw [List.append_assoc, List.singleton_append] at found
  exact ⟨_, rest, found, laid, Quoted.read_spelled parts⟩

theorem gives_readString (parts : List Quoted.Part)
    : Gives (readString expected) (Quoted.spelling parts :: after) after (Quoted.text? parts) := by
  intro bytes laid
  obtain ⟨front, rest, found, laid, read⟩ := laid.quoted
  apply answers_of_toOption laid
  rw [readString, found]
  exact read

theorem gives_readString_of_ne (solid : isBlank b = false) (other : b ≠ quote)
    : Gives (readString expected) ((b :: token) :: after) left none := by
  intro bytes laid
  obtain ⟨rest, -, found, -⟩ := laid.skipBlank_cons solid
  refine ⟨mismatch expected (b :: (token ++ rest)), ?_⟩
  rw [readString, found]
  split
  · rename_i same
    exact absurd (List.cons.inj same).1 other
  · rfl

end

-----------------------------------------------------------------------------------------
-- Elements and members
-----------------------------------------------------------------------------------------

section

variable {after : List Bytes}

theorem gives_nextElement_close (first : Bool)
    : Gives (nextElement first) ([closeList] :: after) ([closeList] :: after) (some false) := by
  intro bytes laid
  obtain ⟨rest, laid, found, -⟩ := laid.skipBlank_cons (by decide)
  refine ⟨_, laid.tight, ?_⟩
  unfold nextElement
  rw [found]
  cases first <;> rfl

theorem nextElement_comma {b : UInt8} {bytes behind rest : Bytes}
    (found : skipBlank bytes = comma :: behind) (foundElement : skipBlank behind = b :: rest)
    (noClose : b ≠ closeList)
    : nextElement false bytes = .ok (true, b :: rest) := by
  unfold nextElement
  split <;> simp_all
  exact absurd found.1 (by decide)

/-- An element is moved to over the comma before it, if it is not the first one. -/
theorem gives_nextElement (first : Bool) (element : Value) (rest : List Value)
    : Gives (nextElement first) (elementTokens first (element :: rest) ++ after)
        (element.tokens ++ (elementTokens false rest ++ after)) (some true) := by
  obtain ⟨token, tail, spelled⟩ := element.tokens_eq_cons
  have noClose := element.lead_ne_closeList
  rw [elementTokens, spelled]
  cases first with
  | true =>
      intro bytes laid
      rw [if_pos rfl, List.nil_append, List.append_assoc] at laid
      obtain ⟨rest, laid, found, -⟩ := laid.skipBlank_cons element.isBlank_lead
      refine ⟨_, laid.tight, ?_⟩
      unfold nextElement
      rw [found]
      split <;> simp_all
  | false =>
      intro bytes laid
      rw [if_neg Bool.false_ne_true, List.append_assoc, List.append_assoc] at laid
      obtain ⟨rest, laid, found, -⟩ := laid.skipBlank_cons (by decide)
      obtain ⟨rest, laid, found', -⟩ := laid.skipBlank_cons element.isBlank_lead
      exact ⟨_, laid.tight, nextElement_comma found found' noClose⟩

theorem gives_nextName_close (first : Bool)
    : Gives (nextName? first) ([closeObject] :: after) after (some none) := by
  intro bytes laid
  obtain ⟨rest, laid, found, -⟩ := laid.skipBlank_cons (by decide)
  refine ⟨rest, laid, ?_⟩
  unfold nextName?
  rw [found]
  cases first <;> rfl

theorem toOption_map_some {β : Type} {answer : Except Failure (β × Bytes)} {value? : Option β}
    {rest : Bytes} (same : answer.toOption = value?.map (·, rest))
    : (answer.map fun (value, rest) => (some value, rest)).toOption
      = (value?.map some).map (·, rest) := by
  cases answer <;> cases value? <;> simp_all [Except.toOption, Except.map]

theorem nextName?_comma {bytes behind rest : Bytes} (found : skipBlank bytes = comma :: behind)
    (foundName : skipBlank behind = quote :: rest)
    : nextName? false bytes = (Quoted.read rest).map fun found => (some found.1, found.2) := by
  unfold nextName?
  split <;> simp_all
  · exact absurd found.1 (by decide)
  · rfl

/-- The name of a member is moved to as an element is, and read. -/
theorem gives_nextName (first : Bool) (name : List Quoted.Part) (value : Value) (rest : Members)
    : Gives (nextName? first) (memberTokens first ((name, value) :: rest) ++ after)
        ([colon] :: (value.tokens ++ (memberTokens false rest ++ after)))
        ((Quoted.text? name).map some) := by
  intro bytes laid
  rw [memberTokens, List.append_assoc, List.append_assoc, List.append_assoc] at laid
  cases first with
  | true =>
      obtain ⟨front, rest, found, laid, read⟩ := Laid.quoted laid
      apply answers_of_toOption laid
      unfold nextName?
      rw [found]
      exact toOption_map_some read
  | false =>
      obtain ⟨behind, laid, found, -⟩ := Laid.skipBlank_cons laid (by decide)
      obtain ⟨front, rest, found', laid, read⟩ := Laid.quoted laid
      apply answers_of_toOption laid
      rw [nextName?_comma found found']
      exact toOption_map_some read

end

end Invalidation.Json
