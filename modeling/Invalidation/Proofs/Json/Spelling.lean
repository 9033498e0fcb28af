import Invalidation.Json.Read
import Invalidation.Proofs.Except
import Invalidation.Proofs.Json.Grammar

/-! What is read as a number or a string is spelled at the front of the text. -/

namespace Invalidation.Json

variable {cut : Failure} {bytes rest : Bytes}

-----------------------------------------------------------------------------------------
-- Numbers
-----------------------------------------------------------------------------------------

namespace Literal

theorem exists_of_readDigits {row : List Nat} (read : readDigits cut bytes = .ok (row, rest))
    : ∃ digits : Digits, bytes = digits.bytes ++ rest ∧ row = digits.values := by
  have areDigits : ∀ b ∈ bytes.takeWhile isDigit, isDigit b = true :=
    List.all_eq_true.1 List.all_takeWhile
  rw [readDigits] at read
  split at read
  · cases read
  · cases read
  · rename_i notAtEnd notOther
    obtain ⟨rfl, rfl⟩ := Prod.mk.inj (Except.ok.inj read)
    refine ⟨⟨bytes.takeWhile isDigit, ?_, areDigits⟩, List.takeWhile_append_dropWhile.symm, rfl⟩
    intro none
    cases behind : bytes.dropWhile isDigit with
    | nil => exact notAtEnd (by simp [digits, none, behind])
    | cons b rest => exact notOther b rest (by simp [digits, none, behind])

theorem exists_of_readWhole {row : List Nat} (read : readWhole cut bytes = .ok (row, rest))
    : ∃ digits : Digits,
        bytes = digits.bytes ++ rest
        ∧ (digits.bytes.head? = some zero → digits.bytes = [zero]) := by
  rw [readWhole] at read
  obtain ⟨⟨row', rest'⟩, readRow, kept⟩ := bind_eq_ok.1 read
  split at kept
  · cases kept
  · rename_i notLong
    obtain ⟨rfl, rfl⟩ := Prod.mk.inj (Except.ok.inj kept)
    obtain ⟨digits, spelled, rfl⟩ := exists_of_readDigits readRow
    refine ⟨digits, spelled, fun first => ?_⟩
    match same : digits.bytes with
    | [] => exact absurd same digits.nonempty
    | [b] =>
        rw [same] at first
        exact congrArg ([·]) (Option.some.inj first)
    | b :: c :: more =>
        rw [same] at first
        obtain rfl : b = zero := Option.some.inj first
        exact absurd (by rw [Digits.values, same]; rfl) (notLong _ _ _)

theorem exists_of_readFraction {row? : Option (List Nat)}
    (read : readFraction cut bytes = .ok (row?, rest))
    : ∃ fraction : Option Digits,
        bytes = (fraction.elim [] fun digits => point :: digits.bytes) ++ rest := by
  unfold readFraction at read
  split at read
  · obtain ⟨⟨row, _⟩, readRow, same⟩ := map_eq_ok.1 read
    obtain ⟨-, rfl⟩ := Prod.mk.inj same
    obtain ⟨digits, rfl, -⟩ := exists_of_readDigits readRow
    exact ⟨some digits, rfl⟩
  · obtain ⟨-, rfl⟩ := Prod.mk.inj (Except.ok.inj read)
    exact ⟨none, rfl⟩

theorem exists_of_exponentSign {isNegative : Bool} (found : exponentSign bytes = (isNegative, rest))
    : ∃ negative : Option Bool,
        bytes = (negative.elim [] fun negative => [if negative then minus else plus]) ++ rest := by
  unfold exponentSign at found
  split at found <;> obtain ⟨-, rfl⟩ := Prod.mk.inj found
  · exact ⟨some false, rfl⟩
  · exact ⟨some true, rfl⟩
  · exact ⟨none, rfl⟩

theorem exists_of_readExponent {found : Option (Bool × List Nat)}
    (read : readExponent cut bytes = .ok (found, rest))
    : ∃ exponent : Option Exponent, bytes = exponent.elim [] Exponent.spelling ++ rest := by
  unfold readExponent at read
  split at read
  · obtain ⟨-, rfl⟩ := Prod.mk.inj (Except.ok.inj read)
    exact ⟨none, rfl⟩
  · rename_i b behind
    split at read
    · rename_i isLetter
      obtain ⟨⟨isNegative, atDigits⟩, found⟩ : ∃ signed, exponentSign behind = signed := ⟨_, rfl⟩
      rw [found] at read
      obtain ⟨negative, signed⟩ := exists_of_exponentSign found
      obtain ⟨⟨row, _⟩, readRow, same⟩ := map_eq_ok.1 read
      obtain ⟨-, rfl⟩ := Prod.mk.inj same
      obtain ⟨digits, spelled, -⟩ := exists_of_readDigits readRow
      refine ⟨some ⟨b = letter 'E', negative, digits⟩, ?_⟩
      have letterSpelled : (if b = letter 'E' then letter 'E' else letter 'e') = b := by
        simp only [Bool.or_eq_true, decide_eq_true_eq] at isLetter
        rcases isLetter with rfl | rfl <;> rfl
      rw [signed, spelled]
      simp [Exponent.spelling, letterSpelled]
    · obtain ⟨-, rfl⟩ := Prod.mk.inj (Except.ok.inj read)
      exact ⟨none, rfl⟩

theorem eq_of_sign {negative : Bool} (found : sign bytes = (negative, rest))
    : bytes = (if negative then [minus] else []) ++ rest := by
  unfold sign at found
  split at found <;> obtain ⟨rfl, rfl⟩ := Prod.mk.inj found <;> rfl

/-- A number that is read is spelled at the front. -/
theorem exists_of_read {literal : Literal} (read : Literal.read cut bytes = .ok (literal, rest))
    : ∃ numeral : Numeral, bytes = numeral.spelling ++ rest := by
  obtain ⟨⟨negative, atWhole⟩, found⟩ : ∃ signed, sign bytes = signed := ⟨_, rfl⟩
  rw [Literal.read, found] at read
  obtain ⟨⟨_, atFraction⟩, wholeRead, read⟩ := bind_eq_ok.1 read
  obtain ⟨⟨_, atExponent⟩, fractionRead, read⟩ := bind_eq_ok.1 read
  obtain ⟨⟨_, _⟩, exponentRead, read⟩ := bind_eq_ok.1 read
  obtain ⟨-, rfl⟩ := Prod.mk.inj (pure_eq_ok.1 read)
  obtain ⟨whole, rfl, zeroAlone⟩ := exists_of_readWhole wholeRead
  obtain ⟨fraction, rfl⟩ := exists_of_readFraction fractionRead
  obtain ⟨exponent, rfl⟩ := exists_of_readExponent exponentRead
  refine ⟨⟨negative, whole, zeroAlone, fraction, exponent⟩, ?_⟩
  rw [eq_of_sign found]
  simp [Numeral.spelling]

end Literal

theorem Number.exists_of_read {number : Number} (read : Number.read bytes = .ok (number, rest))
    : ∃ numeral : Numeral, bytes = numeral.spelling ++ rest := by
  obtain ⟨⟨literal, _⟩, readLiteral, taken⟩ := bind_eq_ok.1 read
  obtain ⟨_, -, same⟩ := bind_eq_ok.1 taken
  obtain ⟨-, rfl⟩ := Prod.mk.inj (pure_eq_ok.1 same)
  exact Literal.exists_of_read readLiteral

theorem Number.exists_of_skip (skipped : Number.skip bytes = .ok rest)
    : ∃ numeral : Numeral, bytes = numeral.spelling ++ rest := by
  obtain ⟨⟨literal, _⟩, readLiteral, rfl⟩ := map_eq_ok.1 skipped
  exact Literal.exists_of_read readLiteral

-----------------------------------------------------------------------------------------
-- Strings
-----------------------------------------------------------------------------------------

namespace Quoted

theorem exists_of_readHex {code : Nat} (read : readHex bytes = .ok (code, rest))
    : ∃ a b c d,
        bytes = a :: b :: c :: d :: rest
        ∧ ∀ digit ∈ [a, b, c, d], (hexValue? digit).isSome = true := by
  unfold readHex at read
  split at read
  · rename_i a b c d behind
    split at read
    · rename_i hasA hasB hasC hasD
      obtain ⟨-, rfl⟩ := Prod.mk.inj (Except.ok.inj read)
      exact ⟨a, b, c, d, rfl, by simp [hasA, hasB, hasC, hasD]⟩
    · cases read
  · cases read

/-- A reader of code points that spells what it has read, behind the start of an escape. -/
def Spells (readPoint : Bytes → Except Failure (Bytes × Bytes)) : Prop :=
  ∀ bytes content rest,
    readPoint bytes = .ok (content, rest)
    → ∃ parts : List Part, backslash :: letter 'u' :: bytes = parts.flatMap Part.bytes ++ rest

theorem spells_skipPoint : Spells skipPoint := by
  intro bytes content rest read
  obtain ⟨⟨code, _⟩, readCode, same⟩ := map_eq_ok.1 read
  obtain ⟨-, rfl⟩ := Prod.mk.inj same
  obtain ⟨a, b, c, d, rfl, hexadecimal⟩ := exists_of_readHex readCode
  exact ⟨[.point a b c d hexadecimal], rfl⟩

theorem spells_readPoint : Spells readPoint := by
  intro bytes content rest read
  rw [readPoint] at read
  obtain ⟨⟨high, behind⟩, readHigh, read⟩ := bind_eq_ok.1 read
  obtain ⟨a, b, c, d, spelled, hexadecimal⟩ := exists_of_readHex readHigh
  rw [spelled]
  dsimp only at read
  split at read
  · cases read
  split at read
  · obtain ⟨-, rfl⟩ := Prod.mk.inj (pure_eq_ok.1 read)
    exact ⟨[.point a b c d hexadecimal], rfl⟩
  split at read
  · cases read
  · cases read
  · split at read
    · cases read
    · rename_i isLetter
      obtain ⟨⟨low, _⟩, readLow, read⟩ := bind_eq_ok.1 read
      split at read
      · obtain ⟨-, rfl⟩ := Prod.mk.inj (pure_eq_ok.1 read)
        obtain ⟨a', b', c', d', rfl, hexadecimal'⟩ := exists_of_readHex readLow
        rw [Decidable.not_not.1 isLetter]
        exact ⟨[.point a b c d hexadecimal, .point a' b' c' d' hexadecimal'], rfl⟩
      · cases read
  · cases read

theorem exists_of_readEscape {readPoint : Bytes → Except Failure (Bytes × Bytes)}
    (spells : Spells readPoint) {content : Bytes}
    (read : readEscape readPoint bytes = .ok (content, rest))
    : ∃ parts : List Part, backslash :: bytes = parts.flatMap Part.bytes ++ rest := by
  unfold readEscape at read
  split at read
  · cases read
  split at read
  · rename_i isLetter
    rw [isLetter]
    exact spells _ _ _ read
  split at read
  · rename_i b _ _ _ plain known
    obtain ⟨-, rfl⟩ := Prod.mk.inj (Except.ok.inj read)
    exact ⟨[.short b (by rw [known]; rfl)], rfl⟩
  · cases read

/-- A literal that is scanned is spelled up to its closing quote, by induction on the fuel. -/
theorem exists_of_scan {readPoint : Bytes → Except Failure (Bytes × Bytes)}
    (spells : Spells readPoint) {fuel : Nat} {content : Bytes}
    (scanned : scan readPoint fuel bytes = .ok (content, rest))
    : ∃ parts : List Part, bytes = parts.flatMap Part.bytes ++ quote :: rest := by
  fun_induction scan readPoint fuel bytes generalizing content with
  | case1 => cases scanned
  | case2 => cases scanned
  | case3 fuel rest =>
      obtain ⟨-, rfl⟩ := Prod.mk.inj (Except.ok.inj scanned)
      exact ⟨[], rfl⟩
  | case4 fuel behind ih =>
      obtain ⟨⟨_, atRest⟩, escapeRead, scanned⟩ := bind_eq_ok.1 scanned
      obtain ⟨⟨_, _⟩, restScanned, scanned⟩ := bind_eq_ok.1 scanned
      obtain ⟨-, rfl⟩ := Prod.mk.inj (pure_eq_ok.1 scanned)
      obtain ⟨escaped, same⟩ := exists_of_readEscape spells escapeRead
      obtain ⟨parts, rfl⟩ := ih atRest restScanned
      exact ⟨escaped ++ parts, same.trans (by simp)⟩
  | case5 => cases scanned
  | case6 fuel b behind noQuote noBackslash printable ih =>
      obtain ⟨⟨_, _⟩, restScanned, same⟩ := map_eq_ok.1 scanned
      obtain ⟨-, rfl⟩ := Prod.mk.inj same
      obtain ⟨parts, rfl⟩ := ih restScanned
      exact ⟨.byte b ⟨by simpa using printable, noQuote, noBackslash⟩ :: parts, rfl⟩

theorem exists_of_scan_quote {readPoint : Bytes → Except Failure (Bytes × Bytes)}
    (spells : Spells readPoint) {content : Bytes}
    (scanned : scan readPoint bytes.length bytes = .ok (content, rest))
    : ∃ parts, quote :: bytes = spelling parts ++ rest := by
  obtain ⟨parts, same⟩ := exists_of_scan spells scanned
  exact ⟨parts, by rw [same]; simp [spelling]⟩

/-- A string that is read is spelled at the front, with its opening quote before it. -/
theorem exists_of_read {text : String} (read : Quoted.read bytes = .ok (text, rest))
    : ∃ parts, quote :: bytes = spelling parts ++ rest := by
  rw [Quoted.read] at read
  obtain ⟨⟨content, _⟩, scanned, read⟩ := bind_eq_ok.1 read
  dsimp only at read
  split at read
  · obtain ⟨-, rfl⟩ := Prod.mk.inj (pure_eq_ok.1 read)
    exact exists_of_scan_quote spells_readPoint scanned
  · cases read

theorem exists_of_skip (skipped : skip bytes = .ok rest)
    : ∃ parts, quote :: bytes = spelling parts ++ rest := by
  obtain ⟨⟨content, _⟩, scanned, rfl⟩ := map_eq_ok.1 skipped
  exact exists_of_scan_quote spells_skipPoint scanned

end Quoted

end Invalidation.Json
