import Shorthand.Text.Encoding

/-!
# Cache keys

The name of a cache entry is a hash of its source, so that it fits in a file name.

- `fnv1a`: the FNV-1a hash of bytes, in 32 bits.
- `base64Url`: 32 bits as six characters that are safe in file names.
- `cacheKey`: the key of a source.
-/

namespace Shorthand

/-- The hash after one more byte. -/
def fnvStep (hash : UInt32) (byte : UInt8) : UInt32 :=
  (hash ^^^ byte.toUInt32) * 0x01000193

/-- The FNV-1a hash of bytes. -/
def fnv1a (bytes : List UInt8) : UInt32 :=
  bytes.foldl fnvStep 0x811c9dc5

/-- The character of a six-bit digit: capital letters, small letters, digits, `-` and `_`. -/
def base64Char (digit : Nat) : Char :=
  if digit < 26 then Char.ofNat (65 + digit)
  else if digit < 52 then Char.ofNat (71 + digit)
  else if digit < 62 then Char.ofNat (digit - 4)
  else if digit = 62 then '-' else '_'

/-- 32 bits, followed by four zero bits, as six-bit digits from the highest to the lowest. -/
def base64Url (n : UInt32) : Text :=
  [30, 24, 18, 12, 6, 0].map fun shift => base64Char (((n.toNat * 16) >>> shift) % 64)

/-- The key of a source. -/
def cacheKey (source : Text) : Text :=
  base64Url (fnv1a (encodeUtf8 source))

end Shorthand
