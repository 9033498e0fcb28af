import Invalidation.Proofs.Except
import Invalidation.Proofs.Json.Grammar

/-! Numbers and strings are read as they are spelled. A number ends where what follows cannot be a
part of it, and a string at its closing quote.
-/

namespace Invalidation.Json

-----------------------------------------------------------------------------------------
-- Numbers
-----------------------------------------------------------------------------------------

/-- Whether a number may go on with the byte. -/
def goesOn (b : UInt8) : Bool := isDigit b || b = point || b = letter 'e' || b = letter 'E'

/-- Text that cannot be taken for the rest of a number. -/
def Bounded (rest : Bytes) : Prop := ∀ b ∈ rest.head?, goesOn b = false

theorem eq_zero_of_isDigit {b : UInt8} (digit : isDigit b = true) (nothing : b.toNat - 48 = 0)
    : b = zero := by
  simp only [isDigit, Bool.and_eq_true, decide_eq_true_eq, UInt8.le_iff_toNat_le] at digit
  have least : (0x30 : UInt8).toNat = 48 := rfl
  have same : zero.toNat = 48 := rfl
  exact UInt8.toNat.inj (by omega)

/-- The values of the digits of a numeral's parts. -/
def Numeral.literal (numeral : Numeral)
    : Literal := {
  negative := numeral.negative
  whole := numeral.whole.values
  fraction := numeral.fraction.map Digits.values
  exponent := numeral.exponent.map fun exponent =>
    (exponent.negative.getD false, exponent.digits.values)
}

namespace Literal

variable {cut : Failure} {rest : Bytes}

/-- Digits are read up to the first byte that is none. -/
theorem readDigits_spelled (digits : Digits) (ends : ∀ b ∈ rest.head?, isDigit b = false)
    : readDigits cut (digits.bytes ++ rest) = .ok (digits.values, rest) := by
  have taken : (digits.bytes ++ rest).takeWhile isDigit = digits.bytes := by
    rw [List.takeWhile_append_of_pos digits.areDigits]
    cases rest with
    | nil => simp
    | cons b rest => simp [ends b rfl]
  have left : (digits.bytes ++ rest).dropWhile isDigit = rest := by
    rw [List.dropWhile_append_of_pos digits.areDigits]
    cases rest with
    | nil => rfl
    | cons b rest => simp [ends b rfl]
  have present : digits.values ≠ [] := by simpa [Digits.values] using digits.nonempty
  rw [readDigits, Literal.digits, taken, left, ← Digits.values]
  split
  · simp_all
  · simp_all
  · rfl

theorem readWhole_spelled (digits : Digits)
    (zeroAlone : digits.bytes.head? = some zero → digits.bytes = [zero])
    (ends : ∀ b ∈ rest.head?, isDigit b = false)
    : readWhole cut (digits.bytes ++ rest) = .ok (digits.values, rest) := by
  rw [readWhole, readDigits_spelled digits ends]
  simp only [Bind.bind, Except.bind]
  split
  · rename_i same
    obtain ⟨values, -⟩ := Prod.mk.inj same
    obtain ⟨b, tail, spelled⟩ := List.exists_cons_of_ne_nil digits.nonempty
    rw [Digits.values, spelled, List.map_cons, List.cons.injEq] at values
    have isZero := eq_zero_of_isDigit (digits.areDigits b (by simp [spelled])) values.1
    have alone := zeroAlone (by simp [spelled, isZero])
    simp_all
  · rfl

theorem readFraction_spelled (fraction : Option Digits)
    (ends : ∀ b ∈ rest.head?, isDigit b = false ∧ b ≠ point)
    : readFraction cut ((fraction.elim [] fun digits => point :: digits.bytes) ++ rest)
      = .ok (fraction.map Digits.values, rest) := by
  cases fraction with
  | none =>
      rw [Option.elim_none, List.nil_append]
      unfold readFraction
      split
      · exact absurd rfl (ends point rfl).2
      · rfl
  | some digits =>
      rw [Option.elim_some, List.cons_append]
      change (readDigits cut (digits.bytes ++ rest)).map _ = _
      rw [readDigits_spelled digits fun b first => (ends b first).1]
      rfl

/-- The sign of an exponent is told from its digits. -/
theorem exponentSign_spelled (negative : Option Bool) (digits : Digits)
    : exponentSign
        ((negative.elim [] fun negative => [if negative then minus else plus])
          ++ (digits.bytes ++ rest))
      = (negative.getD false, digits.bytes ++ rest) := by
  rcases negative with _ | _ | _
  · obtain ⟨b, tail, spelled⟩ := List.exists_cons_of_ne_nil digits.nonempty
    have isDigit : isDigit b = true := digits.areDigits b (by simp [spelled])
    rw [Option.elim_none, List.nil_append, spelled, List.cons_append]
    unfold exponentSign
    split
    · rename_i same
      rw [(List.cons.inj same).1] at isDigit
      exact absurd isDigit (by decide)
    · rename_i same
      rw [(List.cons.inj same).1] at isDigit
      exact absurd isDigit (by decide)
    · rfl
  · rfl
  · rfl

theorem readExponent_spelled (exponent : Option Exponent) (bounded : Bounded rest)
    : readExponent cut (exponent.elim [] Exponent.spelling ++ rest)
      = .ok
          (exponent.map fun exponent =>
              (exponent.negative.getD false, exponent.digits.values),
            rest) := by
  cases exponent with
  | none =>
      cases rest with
      | nil => rfl
      | cons b rest =>
          have other := bounded b rfl
          simp only [goesOn, Bool.or_eq_false_iff, decide_eq_false_iff_not] at other
          simp [readExponent, other]
  | some exponent =>
      have ends (b) (first : b ∈ rest.head?) : isDigit b = false := by
        have other := bounded b first
        simp only [goesOn, Bool.or_eq_false_iff] at other
        exact other.1.1.1
      obtain ⟨capital, negative, digits⟩ := exponent
      have begins : (if capital then letter 'E' else letter 'e') = letter 'e'
          ∨ (if capital then letter 'E' else letter 'e') = letter 'E' := by
        cases capital <;> simp
      simp only [Option.elim_some, Exponent.spelling, List.append_assoc, List.cons_append,
        readExponent, begins, Bool.or_eq_true, decide_eq_true_eq, ↓reduceIte,
        exponentSign_spelled, readDigits_spelled digits ends]
      rfl

theorem sign_spelled (negative : Bool) (digits : Digits)
    : sign ((if negative then [minus] else []) ++ (digits.bytes ++ rest))
      = (negative, digits.bytes ++ rest) := by
  cases negative with
  | true => rfl
  | false =>
      obtain ⟨b, tail, spelled⟩ := List.exists_cons_of_ne_nil digits.nonempty
      have isDigit : isDigit b = true := digits.areDigits b (by simp [spelled])
      rw [if_neg Bool.false_ne_true, List.nil_append, spelled, List.cons_append]
      unfold sign
      split
      · rename_i same
        rw [(List.cons.inj same).1] at isDigit
        exact absurd isDigit (by decide)
      · rfl

/-- An exponent begins with its letter, which is no part of what stands before it. -/
theorem head?_exponent (exponent : Option Exponent) (bounded : Bounded rest)
    : ∀ b ∈ (exponent.elim [] Exponent.spelling ++ rest).head?, isDigit b = false ∧ b ≠ point := by
  intro b first
  cases exponent with
  | none =>
      have other := bounded b first
      simp only [goesOn, Bool.or_eq_false_iff, decide_eq_false_iff_not] at other
      exact other.1.1
  | some exponent =>
      obtain ⟨capital, negative, digits⟩ := exponent
      obtain rfl : (if capital then letter 'E' else letter 'e') = b := by
        simpa [Exponent.spelling] using first
      cases capital <;> decide

theorem head?_fraction (fraction : Option Digits)
    (ends : ∀ b ∈ rest.head?, isDigit b = false ∧ b ≠ point)
    : ∀ b ∈ ((fraction.elim [] fun digits => point :: digits.bytes) ++ rest).head?,
        isDigit b = false := by
  intro b first
  cases fraction with
  | none => exact (ends b first).1
  | some digits =>
      obtain rfl : point = b := by simpa using first
      rfl

/-- A numeral is read to its end. -/
theorem read_spelled (numeral : Numeral) (bounded : Bounded rest)
    : read cut (numeral.spelling ++ rest) = .ok (numeral.literal, rest) := by
  have atExponent := head?_exponent numeral.exponent bounded
  have atFraction := head?_fraction numeral.fraction atExponent
  simp only [read, Numeral.spelling, List.append_assoc, sign_spelled,
    readWhole_spelled numeral.whole numeral.zeroAlone atFraction,
    readFraction_spelled numeral.fraction atExponent, readExponent_spelled _ bounded, Bind.bind,
    Except.bind]
  rfl

end Literal

namespace Number

theorem le_foldl_digits (row : List Nat) (start : Nat)
    : start ≤ row.foldl (fun value d => value * 10 + d) start := by
  induction row generalizing start with
  | nil => exact Nat.le_refl start
  | cons d rest ih => exact Nat.le_trans (by omega) (ih (start * 10 + d))

/-- A significand takes all digits exactly if their number is below 2^64, by induction on them. -/
theorem collect_eq_iff {row : List Nat} {start value : Nat}
    : collect start row = (value, [])
      ↔ row.foldl (fun value d => value * 10 + d) start = value
        ∧ (row = [] ∨ value < 0x10000000000000000) := by
  induction row generalizing start with
  | nil => simp [collect]
  | cons d rest ih =>
      have grows := le_foldl_digits rest (start * 10 + d)
      rw [collect, List.foldl_cons]
      split
      · rename_i small
        rw [ih]
        constructor
        · rintro ⟨rfl, rfl | bounded⟩
          · exact ⟨rfl, .inr small⟩
          · exact ⟨rfl, .inr bounded⟩
        · rintro ⟨same, bounded⟩
          exact ⟨same, .inr (bounded.resolve_left (List.cons_ne_nil d rest))⟩
      · rename_i large
        constructor
        · intro same
          cases congrArg Prod.snd same
        · rintro ⟨rfl, bounded⟩
          have bounded := bounded.resolve_left (List.cons_ne_nil d rest)
          omega

theorem finite_ne_natural (significand : Nat) (exponent : Int) (value : Nat)
    : ofLiteral.finite significand exponent ≠ .ok (natural value) := by
  unfold ofLiteral.finite
  split <;> simp

/-- Only a literal without sign, fraction and exponent stands for a natural number, if its significand
takes all its digits.
-/
theorem ofLiteral_eq_natural_iff {literal : Literal} {value : Nat}
    : ofLiteral literal = .ok (natural value)
      ↔ literal.negative = false
        ∧ literal.fraction = none
        ∧ literal.exponent = none
        ∧ collect 0 literal.whole = (value, []) := by
  unfold ofLiteral
  dsimp only
  split
  · rename_i fraction exponent dropped
    cases negative : literal.negative with
    | false => simp [fraction, exponent, Prod.ext_iff, dropped]
    | true =>
        apply iff_of_false _ (by simp)
        simp only [Bool.not_true, Bool.false_eq_true, ↓reduceIte]
        split <;> simp
  · rename_i exponent other
    refine iff_of_false (finite_ne_natural _ _ _) ?_
    rintro ⟨-, fraction, -, all⟩
    exact other fraction (by rw [all])
  · rename_i exponent
    refine iff_of_false (finite_ne_natural _ _ _) ?_
    rintro ⟨-, -, absent, -⟩
    rw [exponent] at absent
    cases absent
  · rename_i exponent
    refine iff_of_false (fun same => ?_) ?_
    · split at same
      · split at same <;> cases same
      · exact finite_ne_natural _ _ _ same
    · rintro ⟨-, -, absent, -⟩
      rw [exponent] at absent
      cases absent

end Number

/-- A numeral stands for the natural number that it spells, if that is below 2^64. -/
theorem Numeral.ofLiteral_eq_natural_iff {numeral : Numeral} {value : Nat}
    : Number.ofLiteral numeral.literal = .ok (.natural value)
      ↔ numeral.natural? = some value ∧ value < 0x10000000000000000 := by
  have present : numeral.whole.values ≠ [] := by
    simpa [Digits.values] using numeral.whole.nonempty
  rw [Number.ofLiteral_eq_natural_iff, Number.collect_eq_iff, or_iff_right (by exact present)]
  simp only [literal, natural?, Option.map_eq_none_iff, Number.ofDigits]
  split
  · rename_i special
    refine iff_of_false ?_ (by simp)
    rintro ⟨negative, fraction, exponent, -⟩
    simp [negative, fraction, exponent] at special
  · rename_i plain
    simp only [Bool.or_eq_true, not_or, Bool.not_eq_true, Option.isSome_eq_false_iff,
      Option.isNone_iff_eq_none] at plain
    simp [plain]

-----------------------------------------------------------------------------------------
-- Strings
-----------------------------------------------------------------------------------------

namespace Quoted

variable {point : Bytes → Except Failure (Bytes × Bytes)} {fuel : Nat} {b : UInt8} {rest : Bytes}

theorem scan_byte (allowed : 0x20 ≤ b ∧ b ≠ quote ∧ b ≠ backslash)
    : scan point (fuel + 1) (b :: rest)
      = (scan point fuel rest).map fun (content, rest) => (b :: content, rest) := by
  rw [scan, if_neg (by simpa using allowed.1)]
  · exact allowed.2.1
  · exact allowed.2.2

theorem scan_escape
    : scan point (fuel + 1) (backslash :: rest)
      = (readEscape point rest).bind fun (escaped, rest) =>
          (scan point fuel rest).map fun (content, rest) => (escaped ++ content, rest) :=
  rfl

theorem readEscape_short (known : (shortEscape? b).isSome = true)
    : readEscape point (b :: rest) = .ok ((shortEscape? b).toList, rest) := by
  have other : b ≠ letter 'u' := by
    rintro rfl
    revert known
    decide
  obtain ⟨plain, found⟩ := Option.isSome_iff_exists.1 known
  rw [readEscape, if_neg other, found]
  rfl

theorem readEscape_point : readEscape point (letter 'u' :: rest) = point rest := by
  rw [readEscape, if_pos rfl]

theorem readHex_spelled {a b c d : UInt8}
    (hexadecimal : ∀ digit ∈ [a, b, c, d], (hexValue? digit).isSome = true)
    : readHex (a :: b :: c :: d :: rest) = .ok (Part.code a b c d, rest) := by
  simp only [List.forall_mem_cons, Option.isSome_iff_exists] at hexadecimal
  obtain ⟨⟨a', ha⟩, ⟨b', hb⟩, ⟨c', hc⟩, ⟨d', hd⟩, -⟩ := hexadecimal
  simp only [readHex, Part.code, ha, hb, hc, hd, Option.getD_some]

theorem Part.length_bytes_pos (part : Part) : 0 < part.bytes.length := by
  cases part <;> exact Nat.succ_pos _

/-- The fuel that is left behind one part is enough for those after it. -/
theorem fuel_of_cons {part : Part} {parts : List Part}
    (enough : ((part :: parts).flatMap Part.bytes).length < fuel)
    : ∃ left, fuel = left + 1 ∧ (parts.flatMap Part.bytes).length < left := by
  have spent := part.length_bytes_pos
  rw [List.flatMap_cons, List.length_append] at enough
  exact ⟨fuel - 1, by omega, by omega⟩

theorem length_parts_lt (parts : List Part) (rest : Bytes)
    : (parts.flatMap Part.bytes).length
      < (parts.flatMap Part.bytes ++ quote :: rest).length := by
  simp

/-- Parts that nobody asked for are passed over up to the closing quote, by induction on them. -/
theorem scan_skipPoint (parts : List Part) (enough : (parts.flatMap Part.bytes).length < fuel)
    : ∃ content, scan skipPoint fuel (parts.flatMap Part.bytes ++ quote :: rest)
        = .ok (content, rest) := by
  induction parts generalizing fuel with
  | nil =>
      obtain ⟨left, rfl⟩ := Nat.exists_eq_add_one.2 enough
      exact ⟨[], rfl⟩
  | cons part parts ih =>
      obtain ⟨left, rfl, more⟩ := fuel_of_cons enough
      obtain ⟨content, scanned⟩ := ih more
      rw [List.flatMap_cons, List.append_assoc]
      cases part with
      | byte b allowed =>
          rw [Part.bytes, List.singleton_append, scan_byte allowed, scanned]
          exact ⟨_, rfl⟩
      | short b known =>
          simp only [Part.bytes, List.cons_append, List.nil_append]
          rw [scan_escape, readEscape_short known]
          simp only [Except.bind, scanned]
          exact ⟨_, rfl⟩
      | point a b c d hexadecimal =>
          simp only [Part.bytes, List.cons_append, List.nil_append]
          rw [scan_escape, readEscape_point, skipPoint, readHex_spelled hexadecimal]
          simp only [Except.map, Except.bind, scanned]
          exact ⟨_, rfl⟩

theorem skip_spelled (parts : List Part)
    : skip (parts.flatMap Part.bytes ++ quote :: rest) = .ok rest := by
  obtain ⟨content, scanned⟩ := @scan_skipPoint _ rest parts (length_parts_lt parts rest)
  rw [skip, scanned]
  rfl

theorem readPoint_whole {a b c d : UInt8}
    (hexadecimal : ∀ digit ∈ [a, b, c, d], (hexValue? digit).isSome = true)
    (whole : Part.code a b c d < 0xD800 ∨ 0xE000 ≤ Part.code a b c d)
    : readPoint (a :: b :: c :: d :: rest) = .ok (encodePoint (Part.code a b c d), rest) := by
  simp only [readPoint, readHex_spelled hexadecimal, Bind.bind, Except.bind]
  rw [if_neg (by omega), if_pos whole]
  rfl

/-- Behind the first half of a code point the second one has to be spelled. -/
theorem readPoint_half {a b c d next : UInt8}
    (hexadecimal : ∀ digit ∈ [a, b, c, d], (hexValue? digit).isSome = true)
    (half : 0xD800 ≤ Part.code a b c d ∧ Part.code a b c d < 0xDC00)
    : readPoint (a :: b :: c :: d :: backslash :: next :: rest)
      = if next ≠ letter 'u' then .error .malformed
        else
          (readHex rest).bind fun (low, rest) =>
            if 0xDC00 ≤ low ∧ low < 0xE000 then
              .ok (encodePoint (joinHalves (Part.code a b c d) low), rest)
            else .error .malformed := by
  simp only [readPoint, readHex_spelled hexadecimal, Bind.bind, Except.bind]
  rw [if_neg (by omega), if_neg (by omega)]
  rfl

theorem readPoint_half_of_ne {a b c d next : UInt8}
    (hexadecimal : ∀ digit ∈ [a, b, c, d], (hexValue? digit).isSome = true)
    (half : 0xD800 ≤ Part.code a b c d ∧ Part.code a b c d < 0xDC00) (other : next ≠ backslash)
    : readPoint (a :: b :: c :: d :: next :: rest) = .error .malformed := by
  simp only [readPoint, readHex_spelled hexadecimal, Bind.bind, Except.bind]
  rw [if_neg (by omega), if_neg (by omega)]
  split
  · simp_all
  · simp_all
  · simp_all
  · rfl

/-- Half of a code point that nothing completes is refused. -/
theorem readPoint_lone {a b c d : UInt8}
    (hexadecimal : ∀ digit ∈ [a, b, c, d], (hexValue? digit).isSome = true)
    (half : ¬(Part.code a b c d < 0xD800 ∨ 0xE000 ≤ Part.code a b c d)) {parts : List Part}
    (lone
      : ∀ a' b' c' d' hexadecimal' parts',
          parts = .point a' b' c' d' hexadecimal' :: parts'
          → ¬(Part.code a b c d < 0xDC00
              ∧ 0xDC00 ≤ Part.code a' b' c' d'
              ∧ Part.code a' b' c' d' < 0xE000))
    : readPoint (a :: b :: c :: d :: (parts.flatMap Part.bytes ++ quote :: rest))
      = .error .malformed := by
  by_cases second : 0xDC00 ≤ Part.code a b c d
  · simp only [readPoint, readHex_spelled hexadecimal, Bind.bind, Except.bind]
    rw [if_pos ⟨second, by omega⟩]
  · have first : 0xD800 ≤ Part.code a b c d ∧ Part.code a b c d < 0xDC00 := by omega
    cases parts with
    | nil => exact readPoint_half_of_ne hexadecimal first (by decide)
    | cons part parts =>
        cases part with
        | byte b' allowed => exact readPoint_half_of_ne hexadecimal first allowed.2.2
        | short b' known =>
            have other : b' ≠ letter 'u' := by
              rintro rfl
              exact absurd known (by decide +revert)
            simp only [List.flatMap_cons, Part.bytes, List.cons_append, List.nil_append]
            rw [readPoint_half hexadecimal first, if_pos other]
        | point a' b' c' d' hexadecimal' =>
            have unpaired := lone a' b' c' d' hexadecimal' parts rfl
            simp only [List.flatMap_cons, Part.bytes, List.cons_append, List.nil_append]
            rw [readPoint_half hexadecimal first, if_neg (· rfl), readHex_spelled hexadecimal',
              Except.bind]
            exact if_neg (by omega)

/-- The halves of a code point are read together. -/
theorem readPoint_halves {a b c d a' b' c' d' : UInt8}
    (hexadecimal : ∀ digit ∈ [a, b, c, d], (hexValue? digit).isSome = true)
    (hexadecimal' : ∀ digit ∈ [a', b', c', d'], (hexValue? digit).isSome = true)
    (half : ¬(Part.code a b c d < 0xD800 ∨ 0xE000 ≤ Part.code a b c d))
    (paired
      : Part.code a b c d < 0xDC00
        ∧ 0xDC00 ≤ Part.code a' b' c' d'
        ∧ Part.code a' b' c' d' < 0xE000)
    : readPoint (a :: b :: c :: d :: backslash :: letter 'u' :: a' :: b' :: c' :: d' :: rest)
      = .ok (encodePoint (joinHalves (Part.code a b c d) (Part.code a' b' c' d')), rest) := by
  rw [readPoint_half hexadecimal (by omega), if_neg (· rfl), readHex_spelled hexadecimal',
    Except.bind]
  exact if_pos paired.2

/-- Content goes on from what stands before it. -/
theorem toOption_prepend {scanned : Except Failure (Bytes × Bytes)} {content : Option Bytes}
    (given : scanned.toOption = content.map (·, rest)) (front : Bytes)
    : (scanned.map fun (content, rest) => (front ++ content, rest)).toOption
      = (content.map (front ++ ·)).map (·, rest) := by
  cases scanned <;> cases content <;> simp_all [Except.toOption, Except.map]

/-- Parts are read up to the closing quote as what they stand for, and refused if they stand for
nothing; by induction along their meaning.
-/
theorem scan_readPoint (parts : List Part) (enough : (parts.flatMap Part.bytes).length < fuel)
    : (scan readPoint fuel (parts.flatMap Part.bytes ++ quote :: rest)).toOption
      = (content? parts).map (·, rest) := by
  fun_induction content? parts generalizing fuel with
  | case1 =>
      obtain ⟨left, rfl⟩ := Nat.exists_eq_add_one.2 enough
      rfl
  | case2 b allowed parts ih =>
      obtain ⟨left, rfl, more⟩ := fuel_of_cons enough
      rw [List.flatMap_cons, List.append_assoc, Part.bytes, List.singleton_append,
        scan_byte allowed]
      exact toOption_prepend (ih more) [b]
  | case3 b known parts ih =>
      obtain ⟨left, rfl, more⟩ := fuel_of_cons enough
      simp only [List.flatMap_cons, Part.bytes, List.cons_append, List.nil_append]
      rw [scan_escape, readEscape_short known]
      exact toOption_prepend (ih more) _
  | case4 a b c d hexadecimal parts high whole =>
      rename_i ih
      obtain ⟨left, rfl, more⟩ := fuel_of_cons enough
      simp only [List.flatMap_cons, Part.bytes, List.cons_append, List.nil_append]
      rw [scan_escape, readEscape_point, readPoint_whole hexadecimal whole]
      exact toOption_prepend (ih more) _
  | case5 a b c d hexadecimal high half a' b' c' d' hexadecimal' parts low paired =>
      rename_i ih
      obtain ⟨left, rfl, more⟩ := fuel_of_cons enough
      simp only [List.flatMap_cons, List.length_append] at more
      simp only [List.flatMap_cons, Part.bytes, List.cons_append, List.nil_append]
      rw [scan_escape, readEscape_point, readPoint_halves hexadecimal hexadecimal' half paired]
      exact toOption_prepend (ih (by omega)) _
  | case6 a b c d hexadecimal high half a' b' c' d' hexadecimal' parts low =>
      rename_i unpaired
      obtain ⟨left, rfl, -⟩ := fuel_of_cons enough
      rw [List.flatMap_cons]
      simp only [Part.bytes, List.cons_append, List.nil_append]
      rw [scan_escape, readEscape_point, readPoint_lone hexadecimal half]
      · rfl
      · rintro a b c d hexadecimal parts ⟨⟩
        exact unpaired
  | case7 a b c d hexadecimal parts high half =>
      rename_i lone
      obtain ⟨left, rfl, -⟩ := fuel_of_cons enough
      rw [List.flatMap_cons]
      simp only [Part.bytes, List.cons_append, List.nil_append]
      rw [scan_escape, readEscape_point, readPoint_lone hexadecimal half]
      · rfl
      · rintro a b c d hexadecimal parts rfl
        exact absurd rfl (lone a b c d hexadecimal parts)

/-- A string is read as the text that its parts stand for. -/
theorem read_spelled (parts : List Part)
    : (read (parts.flatMap Part.bytes ++ quote :: rest)).toOption = (text? parts).map (·, rest) := by
  have scanned := @scan_readPoint _ rest parts (length_parts_lt parts rest)
  rw [read, text?]
  cases found : scan readPoint (parts.flatMap Part.bytes ++ quote :: rest).length
      (parts.flatMap Part.bytes ++ quote :: rest) with
  | error failure =>
      rw [found] at scanned
      cases content : content? parts with
      | none => rfl
      | some content => simp [content, Except.toOption] at scanned
  | ok pair =>
      rw [found] at scanned
      obtain ⟨content, stands, rfl⟩ := Option.map_eq_some_iff.1 scanned.symm
      simp only [stands, Option.bind_some, Bind.bind, Except.bind]
      cases content.text? <;> rfl

end Quoted

end Invalidation.Json
