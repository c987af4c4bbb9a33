/-!
# Texts as bytes

Wire data holds texts as UTF-8. A byte sequence is a list of bytes throughout the library.

* `utf8Bytes` — the bytes of a text;
* `ofUtf8?` — the text of a byte sequence, if it is UTF-8; reading what `utf8Bytes` wrote gives the
  text back (`ofUtf8?_utf8Bytes`).
-/

namespace Protoscript

/-- The UTF-8 bytes of a text. -/
def utf8Bytes (s : String) : List UInt8 := s.toUTF8.data.toList

/-- The text whose UTF-8 bytes are given, if there is one. -/
def ofUtf8? (bytes : List UInt8) : Option String := String.fromUTF8? ⟨bytes.toArray⟩

theorem ofUtf8?_utf8Bytes (s : String) : ofUtf8? (utf8Bytes s) = some s := by
  have h : (⟨(utf8Bytes s).toArray⟩ : ByteArray) = s.toUTF8 := by simp [utf8Bytes]
  rw [ofUtf8?, h, String.fromUTF8?, dif_pos (show s.toUTF8.IsValidUTF8 from s.isValidUTF8)]
  rfl

end Protoscript
