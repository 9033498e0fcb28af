import Invalidation.Proofs.Json.Reading

/-! Every value is passed over, whatever stands in it and however deep it is nested. A value inside
brackets is passed over as it is outside, so that each bracket is one step more and no level deeper.
-/

namespace Invalidation.Json

variable {after : List Bytes} {bytes : Bytes}

/-- Inside any frames the tokens lead from the position to the end of a value before those that are
left, in fewer steps than twice the bytes that are passed.
-/
def Passes (position : Position) (inner : List Frame) (tokens left : List Bytes)
    : Prop :=
  ∀ bytes,
    Laid tokens bytes
    → ∃ rest steps,
        Laid left rest
        ∧ steps + 2 * rest.length < 2 * bytes.length
        ∧ ∀ fuel frames,
            skipWithin (fuel + steps) position (inner ++ frames) bytes
            = skipWithin fuel .ended frames rest

theorem skipWithin_scalar {b : UInt8} {rest passed : Bytes} {fuel : Nat} {frames : List Frame}
    (found : skipBlank bytes = b :: rest) (plain : b ≠ openList ∧ b ≠ openObject)
    (scalar : readScalar Quoted.skip Number.skip (b :: rest) = .ok passed)
    : skipWithin (fuel + 1) .value frames bytes = skipWithin fuel .ended frames passed := by
  rw [skipWithin, found]
  split
  · rename_i same
    exact absurd (List.cons.inj same).1 plain.1
  · rename_i same
    exact absurd (List.cons.inj same).1 plain.2
  · simp only [scalar, Bind.bind, Except.bind]

theorem passes_scalar {b : UInt8} {token : Bytes} (solid : isBlank b = false)
    (plain : b ≠ openList ∧ b ≠ openObject)
    (scalar
      : ∀ rest,
          Laid after rest
          → readScalar Quoted.skip Number.skip (b :: (token ++ rest)) = .ok rest)
    : Passes .value [] ((b :: token) :: after) after := by
  intro bytes laid
  obtain ⟨rest, laid, found, shorter⟩ := laid.skipBlank_cons solid
  exact ⟨rest, 1, laid, by omega, fun fuel frames =>
    skipWithin_scalar found plain (scalar rest laid)⟩

theorem readScalar_null (rest : Bytes)
    : readScalar Quoted.skip Number.skip (letter 'n' :: (afterN ++ rest)) = .ok rest := by
  have isNull : readScalar Quoted.skip Number.skip (letter 'n' :: (afterN ++ rest))
      = readWord afterN (afterN ++ rest) := rfl
  rw [isNull, readWord_append]

theorem readScalar_boolean (truth : Bool) (rest : Bytes)
    : readScalar Quoted.skip Number.skip
        ((if truth then letter 't' :: afterT else letter 'f' :: afterF) ++ rest)
      = .ok rest := by
  cases truth with
  | true =>
      have isTrue : readScalar Quoted.skip Number.skip (letter 't' :: (afterT ++ rest))
          = readWord afterT (afterT ++ rest) := rfl
      exact isTrue.trans (readWord_append afterT rest)
  | false =>
      have isFalse : readScalar Quoted.skip Number.skip (letter 'f' :: (afterF ++ rest))
          = readWord afterF (afterF ++ rest) := rfl
      exact isFalse.trans (readWord_append afterF rest)

theorem readScalar_text (parts : List Quoted.Part) (rest : Bytes)
    : readScalar Quoted.skip Number.skip (Quoted.spelling parts ++ rest) = .ok rest := by
  have isText : readScalar Quoted.skip Number.skip (Quoted.spelling parts ++ rest)
      = Quoted.skip ((parts.flatMap Quoted.Part.bytes ++ [quote]) ++ rest) := rfl
  rw [isText, List.append_assoc, List.singleton_append, Quoted.skip_spelled]

theorem readScalar_number (numeral : Numeral) {rest : Bytes} (bounded : Bounded rest)
    : readScalar Quoted.skip Number.skip (numeral.spelling ++ rest) = .ok rest := by
  obtain ⟨token, spelled⟩ := numeral.spelling_eq_cons
  have other : (Value.number numeral).lead ≠ quote := numeral.lead_ne (by decide)
  have isNumber : readScalar Quoted.skip Number.skip (numeral.spelling ++ rest)
      = Number.skip (numeral.spelling ++ rest) := by
    simp only [spelled, List.cons_append, readScalar, if_neg other,
      if_pos numeral.lead_isNumeral]
  rw [isNumber, Number.skip, Literal.read_spelled numeral bounded]
  rfl

/-- A name and its colon are passed over. -/
theorem skipName_object {name : List Quoted.Part}
    (laid : Laid (Quoted.spelling name :: [colon] :: after) bytes)
    : ∃ rest,
        Laid after rest
        ∧ Frame.object.skipName bytes = .ok rest
        ∧ rest.length < bytes.length := by
  have spelled : Quoted.spelling name = quote :: (name.flatMap Quoted.Part.bytes ++ [quote]) := rfl
  rw [spelled] at laid
  obtain ⟨behindName, laid, found, shorter⟩ := laid.skipBlank_cons (by decide)
  obtain ⟨rest, laid, colonFound, shorter'⟩ := laid.skipBlank_cons (by decide)
  refine ⟨rest, laid, ?_, by simp at shorter shorter'; omega⟩
  rw [List.append_assoc, List.singleton_append] at found
  rw [List.nil_append] at colonFound
  rw [Frame.skipName, found]
  change (Quoted.skip _ >>= _) = _
  rw [Quoted.skip_spelled]
  simp only [Bind.bind, Except.bind, colonFound]
  rfl

theorem skipWithin_close {frame : Frame} {frames : List Frame} {rest : Bytes} {first : Bool}
    {fuel : Nat} (found : skipBlank bytes = frame.close :: rest)
    : skipWithin (fuel + 1) (if first then .opened else .ended) (frame :: frames) bytes
      = skipWithin fuel .ended frames rest := by
  cases first <;> simp only [Bool.false_eq_true, ↓reduceIte, skipWithin, found]

/-- The closing bracket of a frame ends the value that the frame is of. -/
theorem passes_close (frame : Frame) (first : Bool)
    : Passes (if first then .opened else .ended) [frame] ([frame.close] :: after) after := by
  intro bytes laid
  obtain ⟨rest, laid, found, shorter⟩ := laid.skipBlank_cons (by cases frame <;> decide)
  exact ⟨rest, 1, laid, by simp at shorter; omega, fun fuel frames => skipWithin_close found⟩

/-- Inside brackets the name of a value, its value and what follows are passed over one after the
other; before all but the first value stands a comma.
-/
theorem Passes.element {frame : Frame} {b : UInt8} {token : Bytes}
    {tokens behindName behindValue left : List Bytes} (solid : isBlank b = false)
    (other : b ≠ frame.close)
    (name
      : ∀ bytes,
          Laid ((b :: token) :: tokens) bytes
          → ∃ rest,
              Laid behindName rest
              ∧ frame.skipName bytes = .ok rest
              ∧ rest.length ≤ bytes.length)
    (value : Passes .value [] behindName behindValue)
    (more : Passes .ended [frame] behindValue left) (first : Bool)
    : Passes (if first then .opened else .ended) [frame]
        ((if first then [] else [[comma]]) ++ (b :: token) :: tokens) left := by
  intro bytes laid
  -- The step to the first byte of the name, or of the value in a list.
  have entered
      : ∃ front,
          Laid ((b :: token) :: tokens) front
          ∧ front.length ≤ bytes.length
          ∧ ∀ fuel frames,
              skipWithin (fuel + 1) (if first then .opened else .ended) (frame :: frames) bytes
              = (frame.skipName front >>= skipWithin fuel .value (frame :: frames)) := by
    cases first with
    | true =>
        obtain ⟨rest, laid, found, shorter⟩ := laid.skipBlank_cons solid
        refine ⟨_, laid.tight, by simp; omega, fun fuel frames => ?_⟩
        simp only [↓reduceIte, skipWithin, found, if_neg other, List.cons_append]
    | false =>
        obtain ⟨rest, laid, found, shorter⟩ := laid.skipBlank_cons (by decide)
        refine ⟨rest, laid, by simp at shorter; omega, fun fuel frames => ?_⟩
        have noClose : comma ≠ frame.close := by cases frame <;> decide
        simp only [Bool.false_eq_true, ↓reduceIte, skipWithin, found, if_neg noClose,
          List.nil_append]
  obtain ⟨front, laid, noLonger, step⟩ := entered
  obtain ⟨atValue, laid, named, noLonger'⟩ := name front laid
  obtain ⟨atMore, valueSteps, laid, bounded, valueRun⟩ := value atValue laid
  obtain ⟨rest, moreSteps, laid, bounded', moreRun⟩ := more atMore laid
  refine ⟨rest, moreSteps + valueSteps + 1, laid, by omega, fun fuel frames => ?_⟩
  calc skipWithin (fuel + (moreSteps + valueSteps + 1)) _ (frame :: frames) bytes
      = skipWithin (fuel + moreSteps + valueSteps) .value (frame :: frames) atValue := by
        rw [← Nat.add_assoc, ← Nat.add_assoc, step, named]
        rfl
    _ = skipWithin (fuel + moreSteps) .ended (frame :: frames) atMore := valueRun _ _
    _ = skipWithin fuel .ended frames rest := moreRun _ _

/-- A value in brackets is passed over if what stands in them is. -/
theorem Passes.brackets {frame : Frame} {b : UInt8} {tokens left : List Bytes}
    (solid : isBlank b = false)
    (opens
      : ∀ fuel frames bytes rest,
          skipBlank bytes = b :: rest
          → skipWithin (fuel + 1) .value frames bytes
            = skipWithin fuel .opened (frame :: frames) rest)
    (inside : Passes .opened [frame] tokens left)
    : Passes .value [] ([b] :: tokens) left := by
  intro bytes laid
  obtain ⟨rest, laid, found, shorter⟩ := laid.skipBlank_cons solid
  obtain ⟨behind, steps, laid, bounded, run⟩ := inside rest laid
  refine ⟨behind, steps + 1, laid, by simp at shorter; omega, fun fuel frames => ?_⟩
  exact (opens (fuel + steps) frames bytes _ found).trans (run fuel frames)

theorem ends_elementTokens (elements : List Value) (after : List Bytes)
    : Ends (elementTokens false elements ++ after) := by
  cases elements with
  | nil => exact ends_cons (by decide)
  | cons element rest => exact ends_cons (by decide)

theorem ends_memberTokens (members : Members) (after : List Bytes)
    : Ends (memberTokens false members ++ after) := by
  cases members with
  | nil => exact ends_cons (by decide)
  | cons member rest => exact ends_cons (by decide)

mutual

theorem passes_value (value : Value) (after : List Bytes) (ends : Ends after)
    : Passes .value [] (value.tokens ++ after) after := by
  cases value with
  | null => exact passes_scalar (by decide) (by decide) fun rest _ => readScalar_null rest
  | boolean truth =>
      cases truth with
      | true =>
          exact passes_scalar (by decide) (by decide) fun rest _ => readScalar_boolean true rest
      | false =>
          exact passes_scalar (by decide) (by decide) fun rest _ => readScalar_boolean false rest
  | number numeral =>
      obtain ⟨token, spelled⟩ := numeral.spelling_eq_cons
      rw [Value.tokens, spelled]
      refine passes_scalar (Value.number numeral).isBlank_lead
        ⟨numeral.lead_ne (by decide), numeral.lead_ne (by decide)⟩ fun rest laid => ?_
      rw [← List.cons_append, ← spelled, readScalar_number numeral (ends rest laid)]
  | text parts =>
      exact passes_scalar (by decide) (by decide) fun rest _ => readScalar_text parts rest
  | list elements =>
      refine .brackets (by decide) (fun fuel frames bytes rest found => ?_)
        (passes_elements true elements after)
      rw [skipWithin, found]
      rfl
  | object members =>
      refine .brackets (by decide) (fun fuel frames bytes rest found => ?_)
        (passes_members true members after)
      rw [skipWithin, found]
      rfl

theorem passes_elements (first : Bool) (elements : List Value) (after : List Bytes)
    : Passes (if first then .opened else .ended) [.list] (elementTokens first elements ++ after)
        after := by
  cases elements with
  | nil => exact passes_close .list first
  | cons element rest =>
      have value := passes_value element _ (ends_elementTokens rest after)
      have more := passes_elements false rest after
      obtain ⟨token, tail, spelled⟩ := element.tokens_eq_cons
      simp only [elementTokens, List.append_assoc]
      rw [spelled] at value ⊢
      have noClose : element.lead ≠ Frame.list.close := element.lead_ne_closeList
      exact .element element.isBlank_lead noClose
        (fun bytes laid => ⟨bytes, laid, rfl, Nat.le_refl _⟩) value more first

theorem passes_members (first : Bool) (members : Members) (after : List Bytes)
    : Passes (if first then .opened else .ended) [.object] (memberTokens first members ++ after)
        after := by
  cases members with
  | nil => exact passes_close .object first
  | cons member rest =>
      obtain ⟨name, value⟩ := member
      have passed := passes_value value _ (ends_memberTokens rest after)
      have more := passes_members false rest after
      simp only [memberTokens, List.append_assoc]
      refine .element (by decide) (by decide) (fun bytes laid => ?_) passed more first
      obtain ⟨behind, laid, named, shorter⟩ := skipName_object laid
      exact ⟨behind, laid, named, Nat.le_of_lt shorter⟩

end

/-- A reader that passes over a value stands behind it afterwards, whatever value it was. -/
theorem gives_skipValue (value : Value) (ends : Ends after)
    : Gives (do set (← (skipValue (← get) : Except Failure Bytes))) (value.tokens ++ after) after
        (some ()) := by
  intro bytes laid
  obtain ⟨rest, steps, laid, bounded, run⟩ := passes_value value after ends bytes laid
  refine ⟨rest, laid, ?_⟩
  have skipped : skipValue bytes = .ok rest := by
    obtain ⟨left, enough⟩ : ∃ left, 2 * bytes.length + 2 = left + 1 + steps :=
      ⟨2 * bytes.length + 1 - steps, by omega⟩
    rw [skipValue, enough]
    exact run (left + 1) []
  change StateT.bind (StateT.lift (skipValue bytes)) set bytes = _
  simp only [skipped, StateT.bind, StateT.lift, Bind.bind, Except.bind, Pure.pure, Except.pure]
  rfl

end Invalidation.Json
