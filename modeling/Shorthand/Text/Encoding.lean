import Shorthand.Text.Basic

/-!
# UTF-8

The bytes of a text, and the text that bytes stand for when they are well formed. Both are those of
strict UTF-8, also where a codec is meant that has bytes for lone surrogates (the one of the cache):
the two differ on such surrogates alone, and no text here has any.

- `encodeUtf8`, `decodeUtf8?`: the bytes of a text and back.
- `Encoder`, `Encoder.utf8`: what makes the bytes of a text that goes into a file.
-/

namespace Shorthand

/-- The UTF-8 bytes of a text. Every text has some, since no character is a surrogate. -/
def encodeUtf8 (t : Text) : List UInt8 :=
  t.flatMap String.utf8EncodeChar

/-- The text of well-formed UTF-8 bytes. Bytes that would stand for a surrogate are not well
formed. -/
def decodeUtf8? (bytes : List UInt8) : Option Text :=
  (String.fromUTF8? bytes.toByteArray).map String.toList

/-- An encoder: the bytes of a text, none when one of its characters has no bytes. The one of UTF-8
has bytes for every text here; what is said of files that texts are written to holds of any encoder,
so also where there are characters that cannot be written. -/
abbrev Encoder := Text → Option (List UInt8)

/-- The encoder of UTF-8. -/
def Encoder.utf8 : Encoder := fun t => some (encodeUtf8 t)

/-- A text's bytes stand for the text. -/
theorem decodeUtf8?_encodeUtf8 (t : Text) : decodeUtf8? (encodeUtf8 t) = some t := by
  have hvalid : (encodeUtf8 t).toByteArray.IsValidUTF8 := ByteArray.isValidUTF8_utf8Encode
  have hbytes : String.fromUTF8 (encodeUtf8 t).toByteArray hvalid = String.ofList t := rfl
  rw [decodeUtf8?, String.fromUTF8?, dif_pos hvalid, hbytes, Option.map_some, String.toList_ofList]

end Shorthand
