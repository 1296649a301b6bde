/-!
# Text as bytes

Reading bytes as a text gives back the text that was written (`ofUtf8_utf8`), or tells where the
bytes cease to be one.
-/

namespace LinkMonitor.Text

/-- The bytes of a text in UTF-8. -/
def utf8 (s : String) : List UInt8 :=
  s.toByteArray.data.toList

/-- How many bytes from a position on stand before the first that begins no character. -/
def wellFormedUntil (b : ByteArray) (i : Nat) : Nat :=
  if i < b.size then
    match b.utf8DecodeChar? i with
    | some c => wellFormedUntil b (i + c.utf8Size)
    | none => i
  else b.size
termination_by b.size - i
decreasing_by have := c.utf8Size_pos; omega

/-- The text that bytes spell in UTF-8, or the place of the first byte that begins no
character. -/
def ofUtf8 (bs : List UInt8) : Except Nat String :=
  let b := ByteArray.mk bs.toArray
  match String.fromUTF8? b with
  | some s => .ok s
  | none => .error (wellFormedUntil b 0)

theorem ofUtf8_utf8 (s : String) : ofUtf8 (utf8 s) = .ok s := by
  have h : ByteArray.mk (utf8 s).toArray = s.toByteArray := by simp [utf8]
  have hs : String.fromUTF8? s.toByteArray = some s := by
    rw [String.fromUTF8?, dif_pos s.isValidUTF8]
    rfl
  simp only [ofUtf8, h, hs]

end LinkMonitor.Text
