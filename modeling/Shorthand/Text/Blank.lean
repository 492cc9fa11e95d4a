import Shorthand.Text.CodeSet

/-!
# Blank characters

The white space of Unicode (29 characters), among it the four separator controls `U+001C` to
`U+001F`, the next-line control and the no-break spaces.
-/

namespace Shorthand

/-- The code points of the blank characters. -/
def blankCodes : CodeSet :=
  [9, 14, 28, 33, 133, 134, 160, 161, 5760, 5761, 8192, 8203, 8232, 8234, 8239, 8240, 8287, 8288,
  12288, 12289]

/-- Whether a character is white space. -/
def isBlank (c : Char) : Bool :=
  blankCodes.contains c.toNat

end Shorthand
