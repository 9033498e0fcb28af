import Invalidation.Proofs.Json.Reading
import Invalidation.Proofs.Json.Spelling

/-! What readers take from the front of a text is spelled there, token by token. Readers that follow
each other take their tokens one after the other.
-/

namespace Invalidation.Json

-----------------------------------------------------------------------------------------
-- Tokens at the front of a text
-----------------------------------------------------------------------------------------

/-- The tokens stand at the front of the bytes, before the rest. -/
def Fronts (tokens : List Bytes) (bytes rest : Bytes) : Prop :=
  ∀ after, Laid after rest → Laid (tokens ++ after) bytes

section

variable {tokens more : List Bytes} {token bytes middle rest : Bytes}

theorem Laid.behindBlank (laid : Laid tokens (skipBlank bytes))
    : Laid tokens bytes := by
  have whole : bytes.takeWhile isBlank ++ skipBlank bytes = bytes := List.takeWhile_append_dropWhile
  have blank : Blank (bytes.takeWhile isBlank) := List.all_eq_true.1 List.all_takeWhile
  rw [← whole]
  generalize skipBlank bytes = solid at laid
  cases laid with
  | nil blankToo =>
      exact .nil fun b member => (List.mem_append.1 member).elim (blank b) (blankToo b)
  | cons blankToo laid =>
      rw [← List.append_assoc, ← List.append_assoc]
      exact .cons (fun b member => (List.mem_append.1 member).elim (blank b) (blankToo b)) laid

theorem fronts_nil : Fronts [] bytes bytes := fun _ laid => laid

theorem fronts_skipBlank : Fronts [] bytes (skipBlank bytes) := fun _ laid => laid.behindBlank

theorem Fronts.append (first : Fronts tokens bytes middle) (second : Fronts more middle rest)
    : Fronts (tokens ++ more) bytes rest := by
  intro after laid
  rw [List.append_assoc]
  exact first _ (second after laid)

theorem fronts_token (found : skipBlank bytes = token ++ rest)
    : Fronts [token] bytes rest := by
  intro after laid
  apply Laid.behindBlank
  rw [found]
  exact laid.tight

end

-----------------------------------------------------------------------------------------
-- Readers of tokens
-----------------------------------------------------------------------------------------

section

variable {α β : Type} {reader : Reader Failure α} {next : α → Reader Failure β} {value : α}
  {spelling : α → List Bytes → Prop} {spellingToo : β → List Bytes → Prop}

/-- What the reader has read is spelled by the tokens that it leaves behind. -/
def Reads (reader : Reader Failure α) (spelling : α → List Bytes → Prop) : Prop :=
  ∀ bytes value rest,
    reader bytes = .ok (value, rest) → ∃ tokens, spelling value tokens ∧ Fronts tokens bytes rest

theorem reader_bind_eq_ok {bytes rest : Bytes} {result : β}
    : (reader >>= next) bytes = .ok (result, rest)
      ↔ ∃ value middle,
          reader bytes = .ok (value, middle) ∧ next value middle = .ok (result, rest) := by
  change (reader bytes >>= fun both => next both.1 both.2) = _ ↔ _
  rw [bind_eq_ok]
  constructor
  · rintro ⟨⟨value, middle⟩, read, later⟩
    exact ⟨value, middle, read, later⟩
  · rintro ⟨value, middle, read, later⟩
    exact ⟨(value, middle), read, later⟩

theorem reads_pure (spelled : spelling value []) : Reads (pure value) spelling := by
  intro bytes result rest read
  obtain ⟨rfl, rfl⟩ := Prod.mk.inj (Except.ok.inj read)
  exact ⟨[], spelled, fronts_nil⟩

theorem reads_throw {failure : Failure} : Reads (throw failure : Reader Failure α) spelling :=
  fun _ _ _ read => nomatch read

theorem Reads.bind (first : Reads reader spelling)
    (second
      : ∀ value front,
          spelling value front
          → Reads (next value) fun result back => spellingToo result (front ++ back))
    : Reads (reader >>= next) spellingToo := by
  intro bytes result rest read
  obtain ⟨value, middle, readFirst, readSecond⟩ := reader_bind_eq_ok.1 read
  obtain ⟨front, spelled, atFront⟩ := first bytes value middle readFirst
  obtain ⟨back, spelledToo, atBack⟩ := second value front spelled middle result rest readSecond
  exact ⟨front ++ back, spelledToo, atFront.append atBack⟩

theorem Reads.fmap {spelling : List Bytes → Prop} (reads : Reads reader fun _ => spelling)
    (f : α → β)
    : Reads (f <$> reader) fun _ => spelling := by
  rw [← bind_pure_comp]
  exact reads.bind fun _ _ spelled => reads_pure (by simpa using spelled)

theorem Reads.mono (reads : Reads reader spelling) {other : α → List Bytes → Prop}
    (implies : ∀ value tokens, spelling value tokens → other value tokens)
    : Reads reader other := by
  intro bytes value rest read
  obtain ⟨tokens, spelled, fronts⟩ := reads bytes value rest read
  exact ⟨tokens, implies value tokens spelled, fronts⟩

end

/-- The tokens are those of a value. -/
def OfValue (tokens : List Bytes) : Prop := ∃ value : Value, value.tokens = tokens

theorem reads_readByte (b : UInt8) : Reads (readByte b) fun _ tokens => tokens = [[b]] := by
  intro bytes _ rest read
  unfold readByte at read
  split at read
  · cases read
  rename_i found
  split at read
  · rename_i same
    obtain ⟨-, rfl⟩ := Prod.mk.inj (Except.ok.inj read)
    subst same
    exact ⟨_, rfl, fronts_token found⟩
  · cases read

theorem reads_peek : Reads peek fun _ tokens => tokens = [] := by
  intro bytes _ rest read
  unfold peek at read
  split at read
  · cases read
  rename_i found
  obtain ⟨-, rfl⟩ := Prod.mk.inj (Except.ok.inj read)
  exact ⟨[], rfl, found ▸ fronts_skipBlank⟩

theorem eq_of_readWord {word bytes rest : Bytes} (read : readWord word bytes = .ok rest)
    : bytes = word ++ rest := by
  induction word generalizing bytes with
  | nil => exact Except.ok.inj read
  | cons w word ih =>
      cases bytes with
      | nil => cases read
      | cons b bytes =>
          rw [readWord] at read
          split at read
          · rename_i same
            rw [same, ih read, List.cons_append]
          · cases read

theorem reads_readNull
    : Reads readNull fun absent tokens => tokens = if absent then Value.null.tokens else [] := by
  intro bytes absent rest read
  unfold readNull at read
  split at read
  · rename_i found
    obtain ⟨rfl, rfl⟩ := Prod.mk.inj (Except.ok.inj read)
    exact ⟨[], rfl, found ▸ fronts_skipBlank⟩
  rename_i found
  split at read
  · rename_i isNull
    obtain ⟨_, readRest, same⟩ := map_eq_ok.1 read
    obtain ⟨rfl, rfl⟩ := Prod.mk.inj same
    rw [isNull, eq_of_readWord readRest] at found
    exact ⟨Value.null.tokens, rfl, fronts_token found⟩
  · obtain ⟨rfl, rfl⟩ := Prod.mk.inj (Except.ok.inj read)
    exact ⟨[], rfl, found ▸ fronts_skipBlank⟩

theorem reads_readNatural (width : Width) : Reads (readNatural width) fun _ => OfValue := by
  intro bytes value rest read
  unfold readNatural at read
  split at read
  · cases read
  rename_i found
  split at read
  · obtain ⟨⟨number, behind⟩, readNumber, read⟩ := bind_eq_ok.1 read
    obtain ⟨numeral, spelled⟩ := Number.exists_of_read readNumber
    have same : behind = rest := by
      cases number with
      | natural found =>
          dsimp only at read
          split at read
          · exact (Prod.mk.inj (Except.ok.inj read)).2
          · cases read
      | negative => cases read
      | floating => cases read
    subst same
    exact ⟨_, ⟨.number numeral, rfl⟩, fronts_token (found.trans spelled)⟩
  · cases read

theorem reads_readBoolean : Reads readBoolean fun _ => OfValue := by
  intro bytes value rest read
  unfold readBoolean at read
  split at read
  · cases read
  rename_i found
  split at read
  · rename_i isTrue
    obtain ⟨_, readRest, same⟩ := map_eq_ok.1 read
    obtain ⟨-, rfl⟩ := Prod.mk.inj same
    rw [isTrue, eq_of_readWord readRest] at found
    exact ⟨_, ⟨.boolean true, rfl⟩, fronts_token found⟩
  split at read
  · rename_i isFalse
    obtain ⟨_, readRest, same⟩ := map_eq_ok.1 read
    obtain ⟨-, rfl⟩ := Prod.mk.inj same
    rw [isFalse, eq_of_readWord readRest] at found
    exact ⟨_, ⟨.boolean false, rfl⟩, fronts_token found⟩
  · cases read

theorem reads_readString (expected : String)
    : Reads (readString expected) fun _ tokens => ∃ parts, tokens = [Quoted.spelling parts] := by
  intro bytes value rest read
  unfold readString at read
  split at read
  · rename_i found
    obtain ⟨parts, spelled⟩ := Quoted.exists_of_read read
    exact ⟨_, ⟨parts, rfl⟩, fronts_token (found.trans spelled)⟩
  · cases read

/-- The word for no value has to stand where a bare variant has a payload. -/
theorem reads_readUnit : Reads readUnit fun _ tokens => tokens = Value.null.tokens := by
  intro bytes _ rest read
  obtain ⟨⟨absent, _⟩, readAbsent, read⟩ := bind_eq_ok.1 read
  obtain ⟨tokens, spelled, fronts⟩ := reads_readNull _ _ _ readAbsent
  cases absent with
  | true =>
      obtain ⟨-, rfl⟩ := Prod.mk.inj (Except.ok.inj read)
      exact ⟨tokens, spelled, fronts⟩
  | false => cases read

/-- A value that may be null is read as null or by its own reader. -/
theorem Reads.orNull {α : Type} {reader : Reader Failure α} (reads : Reads reader fun _ => OfValue)
    : Reads (readNull >>= fun absent => if absent then pure none else return some (← reader))
        fun _ => OfValue := by
  refine reads_readNull.bind ?_
  rintro absent _ rfl
  cases absent with
  | true => exact reads_pure ⟨.null, rfl⟩
  | false => exact reads.bind fun _ _ spelled => reads_pure (by simpa using spelled)

-----------------------------------------------------------------------------------------
-- Elements and members
-----------------------------------------------------------------------------------------

/-- An element is moved to over the comma before it, if it is not the first one. -/
theorem reads_nextElement (first : Bool)
    : Reads (nextElement first) fun more tokens =>
        tokens = if more && !first then [[comma]] else [] := by
  intro bytes more rest read
  unfold nextElement at read
  split at read
  · cases read
  · rename_i found
    obtain ⟨rfl, rfl⟩ := Prod.mk.inj (Except.ok.inj read)
    exact ⟨[], rfl, found ▸ fronts_skipBlank⟩
  · obtain ⟨rfl, rfl⟩ := Prod.mk.inj (Except.ok.inj read)
    exact ⟨[], rfl, fronts_skipBlank⟩
  · rename_i found
    split at read
    · cases read
    · cases read
    · obtain ⟨rfl, rfl⟩ := Prod.mk.inj (Except.ok.inj read)
      exact ⟨[[comma]], rfl, (fronts_token found).append fronts_skipBlank⟩
  · cases read

/-- Without a further element the closing bracket stays. -/
theorem eq_of_nextElement {first : Bool} {bytes rest : Bytes}
    (read : nextElement first bytes = .ok (false, rest))
    : ∃ behind, rest = closeList :: behind := by
  unfold nextElement at read
  split at read
  · cases read
  · exact ⟨_, (Prod.mk.inj (Except.ok.inj read)).2.symm⟩
  · cases read
  · split at read <;> cases read
  · cases read

theorem nextElement_close (first : Bool) (behind : Bytes)
    : nextElement first (closeList :: behind) = .ok (false, closeList :: behind) := by
  cases first <;> rfl

section

variable {α σ : Type}

theorem reads_readElements {element : Reader Failure α} (reads : Reads element fun _ => OfValue)
    (fuel : Nat) (first : Bool)
    : Reads (readElements element fuel first) fun _ tokens =>
        ∃ values, tokens = elementTokens first values := by
  induction fuel generalizing first with
  | zero => exact reads_throw
  | succ fuel ih =>
      refine (reads_nextElement first).bind ?_
      rintro more _ rfl
      cases more with
      | false =>
          refine (reads_readByte closeList).bind ?_
          rintro _ _ rfl
          exact reads_pure ⟨[], by simp [elementTokens]⟩
      | true =>
          refine reads.bind ?_
          rintro head _ ⟨value, rfl⟩
          refine (ih false).bind ?_
          rintro tail _ ⟨values, rfl⟩
          exact reads_pure ⟨value :: values, by cases first <;> simp [elementTokens]⟩

theorem reads_readExactly {element : Reader Failure α} (reads : Reads element fun _ => OfValue)
    (expected : String) (count index : Nat)
    : Reads (readExactly element expected count index) fun _ tokens =>
        ∃ values, tokens = elementTokens (index = 0) values := by
  induction count generalizing index with
  | zero =>
      refine (reads_readByte closeList).bind ?_
      rintro _ _ rfl
      exact reads_pure ⟨[], by simp [elementTokens]⟩
  | succ count ih =>
      refine (reads_nextElement (index = 0)).bind ?_
      rintro more _ rfl
      cases more with
      | false => exact reads_throw
      | true =>
          refine reads.bind ?_
          rintro head _ ⟨value, rfl⟩
          refine (ih (index + 1)).bind ?_
          rintro tail _ ⟨values, rfl⟩
          exact reads_pure ⟨value :: values, by cases index <;> simp [elementTokens]⟩

/-- The name of a member is moved to as an element is, and read; or the closing bracket is. -/
theorem reads_nextName (first : Bool)
    : Reads (nextName? first) fun name? tokens =>
        match name? with
        | none => tokens = [[closeObject]]
        | some _ =>
            ∃ parts, tokens = (if first then [] else [[comma]]) ++ [Quoted.spelling parts] := by
  intro bytes name? rest read
  unfold nextName? at read
  split at read
  · cases read
  · rename_i found
    obtain ⟨rfl, rfl⟩ := Prod.mk.inj (Except.ok.inj read)
    exact ⟨_, rfl, fronts_token found⟩
  · rename_i found
    obtain ⟨⟨name, _⟩, readName, same⟩ := map_eq_ok.1 read
    obtain ⟨rfl, rfl⟩ := Prod.mk.inj same
    obtain ⟨parts, spelled⟩ := Quoted.exists_of_read readName
    exact ⟨_, ⟨parts, rfl⟩, fronts_token (found.trans spelled)⟩
  · rename_i found
    split at read
    · cases read
    · rename_i foundName
      obtain ⟨⟨name, _⟩, readName, same⟩ := map_eq_ok.1 read
      obtain ⟨rfl, rfl⟩ := Prod.mk.inj same
      obtain ⟨parts, spelled⟩ := Quoted.exists_of_read readName
      exact ⟨_, ⟨parts, rfl⟩, (fronts_token found).append (fronts_token (foundName.trans spelled))⟩
    · cases read
  · cases read

theorem reads_readMembers {member : String → σ → Reader Failure σ}
    (reads : ∀ name slots, Reads (member name slots) fun _ tokens =>
      ∃ value : Value, tokens = [colon] :: value.tokens)
    (fuel : Nat) (first : Bool) (slots : σ)
    : Reads (readMembers member fuel first slots) fun _ tokens =>
        ∃ members, tokens = memberTokens first members := by
  induction fuel generalizing first slots with
  | zero => exact reads_throw
  | succ fuel ih =>
      refine (reads_nextName first).bind ?_
      intro name? front spelled
      cases name? with
      | none =>
          obtain rfl := spelled
          exact reads_pure ⟨[], by simp [memberTokens]⟩
      | some name =>
          obtain ⟨parts, rfl⟩ := spelled
          refine (reads name slots).bind ?_
          rintro slots _ ⟨value, rfl⟩
          refine (ih false slots).mono ?_
          rintro _ _ ⟨members, rfl⟩
          exact ⟨(parts, value) :: members, by simp [memberTokens]⟩

end

end Invalidation.Json
