import Invalidation.Text.Extending
import Invalidation.Text.Unprintable

/-! Texts in quotes, as a person reads them: what cannot be seen is spelled out by escapes. -/

namespace Invalidation.Text

def isIn (ranges : List (Nat × Nat)) (c : Char)
    : Bool :=
  ranges.any fun (first, last) => first ≤ c.toNat && c.toNat ≤ last

/-- A code point by its number, in hexadecimal digits without leading zeros. -/
def numbered (c : Char)
    : String :=
  "\\u\x7b" ++ String.ofList (Nat.toDigits 16 c.toNat) ++ "\x7d"

/-- Whether a character makes no mark of its own that a reader could tell by itself. -/
def isHidden (c : Char) : Bool := isIn unprintable c || isIn extending c || isIn fillers c

/-- How a character stands between quotes, wherever it stands there. -/
def quotedChar (c : Char)
    : String :=
  if c = '\x00' then "\\0"
  else if c = '\t' then "\\t"
  else if c = '\r' then "\\r"
  else if c = '\n' then "\\n"
  else if c = '"' then "\\\""
  else if c = '\\' then "\\\\"
  else if isHidden c then numbered c
  else c.toString

def quoted (text : String) : String := "\"" ++ String.join (text.toList.map quotedChar) ++ "\""

end Invalidation.Text
