/-! Readers of byte documents: each consumes bytes from the front and may fail. -/

namespace Invalidation

/-- The contents of a document, front first. -/
abbrev Bytes := List UInt8

/-- A computation that consumes bytes from the front, or fails with a cause. -/
abbrev Reader (ε α : Type) := StateT Bytes (Except ε) α

namespace Bytes

def ofText (text : String) : Bytes := text.toUTF8.data.toList

/-- The text that the bytes encode, if they are well-formed UTF-8. -/
def text? (bytes : Bytes) : Option String := String.fromUTF8? ⟨bytes.toArray⟩

/-- Decoding gives back every encoded text, since an encoding is well formed. -/
theorem text?_ofText (text : String)
    : text? (ofText text) = some text := by
  have well : (ByteArray.mk (ofText text).toArray).IsValidUTF8 := by
    simpa [ofText] using text.isValidUTF8
  simp only [text?, String.fromUTF8?, dif_pos well]
  congr 1

theorem ofText_inj {text other : String} (same : ofText text = ofText other)
    : text = other := by
  have read := text?_ofText text
  rw [same, text?_ofText] at read
  exact (Option.some.inj read).symm

end Bytes

end Invalidation
