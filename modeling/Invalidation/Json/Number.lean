import Invalidation.Json.Token

/-! Number literals. A literal is read by its grammar alone; its value is taken afterwards, where a
natural number of 64 bits is kept exactly and all else is told apart only as far as a reader of
natural numbers needs it.
-/

namespace Invalidation.Json

/-- A number as it is spelled: the digits before the point, those after it, and the exponent with
whether its sign is negative.
-/
structure Literal where
  negative : Bool
  whole : List Nat
  fraction : Option (List Nat)
  exponent : Option (Bool × List Nat)
deriving DecidableEq

namespace Literal

/-- The digits at the front. -/
def digits (bytes : Bytes)
    : List Nat × Bytes :=
  ((bytes.takeWhile isDigit).map fun b => b.toNat - 48, bytes.dropWhile isDigit)

/-- Reads at least one digit; `cut` is the failure where the text ends first. -/
def readDigits (cut : Failure) (bytes : Bytes)
    : Except Failure (List Nat × Bytes) :=
  match digits bytes with
  | ([], []) => .error cut
  | ([], _ :: _) => .error .malformed
  | found => .ok found

/-- Reads the digits before the point, where a zero stands alone. -/
def readWhole (cut : Failure) (bytes : Bytes)
    : Except Failure (List Nat × Bytes) := do
  match ← readDigits cut bytes with
  | (0 :: _ :: _, _) => .error .malformed
  | found => .ok found

/-- Reads the point and the digits after it, if a point stands there. -/
def readFraction (cut : Failure) : Bytes → Except Failure (Option (List Nat) × Bytes)
  | point :: bytes => (readDigits cut bytes).map fun (found, bytes) => (some found, bytes)
  | bytes => .ok (none, bytes)

def exponentSign : Bytes → Bool × Bytes
  | plus :: bytes => (false, bytes)
  | minus :: bytes => (true, bytes)
  | bytes => (false, bytes)

def readExponent (cut : Failure) (bytes : Bytes)
    : Except Failure (Option (Bool × List Nat) × Bytes) :=
  match bytes with
  | [] => .ok (none, [])
  | b :: rest =>
      if b = letter 'e' || b = letter 'E' then
        let (negative, rest) := exponentSign rest
        (readDigits cut rest).map fun (found, rest) => (some (negative, found), rest)
      else .ok (none, bytes)

def sign : Bytes → Bool × Bytes
  | minus :: bytes => (true, bytes)
  | bytes => (false, bytes)

/-- Reads a number by its grammar; `cut` is the failure where the text ends in the middle. -/
def read (cut : Failure) (bytes : Bytes)
    : Except Failure (Literal × Bytes) := do
  let (negative, bytes) := sign bytes
  let (whole, bytes) ← readWhole cut bytes
  let (fraction, bytes) ← readFraction cut bytes
  let (exponent, bytes) ← readExponent cut bytes
  return (⟨negative, whole, fraction, exponent⟩, bytes)

end Literal

/-- A number as far as a reader of natural numbers tells numbers apart. -/
inductive Number where
  | natural (value : Nat)
  /-- A negative number that 64 bits hold exactly. -/
  | negative
  /-- A number that only a floating-point value stands for. -/
  | floating
deriving DecidableEq

namespace Number

/-- The significand collects digits as long as 64 bits hold it, and gives back the others. -/
def collect : Nat → List Nat → Nat × List Nat
  | significand, [] => (significand, [])
  | significand, d :: rest =>
      if significand * 10 + d < 0x10000000000000000 then collect (significand * 10 + d) rest
      else (significand, d :: rest)

def ofDigits (row : List Nat) : Nat := row.foldl (fun value d => value * 10 + d) 0

/-- A natural number rounded to 53 significant bits, where a half goes to the even neighbour. -/
def round53 (n : Nat)
    : Nat :=
  let unit := 1 <<< (n.log2 - 52)
  let lower := n / unit
  let rest := n % unit
  if 2 * rest > unit ∨ (2 * rest = unit ∧ lower % 2 = 1) then (lower + 1) * unit
  else lower * unit

/-- Whether a significand times a power of ten is beyond the doubles, with each of the two factors
rounded first. Only a power with a positive exponent goes beyond them, and the powers end at 308.
-/
def exceedsDouble (significand : Nat) (exponent : Int)
    : Bool :=
  if exponent < 0 then false
  else if 308 < exponent then significand ≠ 0
  else 1 <<< 1024 - 1 <<< 970 ≤ round53 significand * round53 (Nat.pow 10 exponent.toNat)

/-- The value of a literal. A literal beyond the doubles has none, and neither has one whose
exponent outgrows 32 bits upwards, zero apart.
-/
def ofLiteral (literal : Literal)
    : Except Failure Number :=
  let (whole, dropped) := collect 0 literal.whole
  let fraction := literal.fraction.getD []
  let (significand, unread) := collect whole fraction
  let scale : Int := dropped.length - (fraction.length - unread.length : Nat)
  match literal.fraction, literal.exponent, dropped with
  | none, none, [] => .ok <|
      if !literal.negative then natural whole
      else if whole = 0 ∨ 0x8000000000000000 < whole then floating
      else negative
  | _, none, _ => finite significand scale
  | _, some (true, row), _ => finite significand (scale - ofDigits row)
  | _, some (false, row), _ =>
      if 0x80000000 ≤ ofDigits row then
        if significand = 0 then .ok floating else .error .malformed
      else finite significand (scale + ofDigits row)
where
  /-- A floating-point value, unless it is beyond the doubles. -/
  finite (significand : Nat) (exponent : Int) : Except Failure Number :=
    if exceedsDouble significand exponent then .error .malformed else .ok floating

/-- Reads a number whose value counts. -/
def read (bytes : Bytes)
    : Except Failure (Number × Bytes) := do
  let (literal, rest) ← Literal.read .truncated bytes
  return (← ofLiteral literal, rest)

/-- Passes over a number whose value does not count: only the grammar is looked at, and one that
the end of the text cuts off breaks it.
-/
def skip (bytes : Bytes) : Except Failure Bytes := (Literal.read .malformed bytes).map (·.2)

end Number

end Invalidation.Json
