import Shorthand.Text.Basic
import Shorthand.Text.Printable

/-!
# Quoted texts

A text between quotes, as values and file names are shown in messages. The quotes are single ones
unless the text has a single quote and no double one. A backslash, the quote in use and the line
end, return and tab are escaped by a backslash; any other character that is not printable is
written by its code point, in two, four or eight hexadecimal digits.
-/

namespace Shorthand

/-- A number in lower-case hexadecimal digits, padded with zeros to a width. -/
def hexDigits (width n : Nat) : Text :=
  let ds := Nat.toDigits 16 n
  List.replicate (width - ds.length) '0' ++ ds

/-- One character of a text that is quoted by `quote`. -/
def quotedChar (quote c : Char) : Text :=
  if c = quote || c = '\\' then ['\\', c]
  else if c = '\n' then ['\\', 'n']
  else if c = '\r' then ['\\', 'r']
  else if c = '\t' then ['\\', 't']
  else if isPrintable c then [c]
  else if c.toNat < 0x100 then '\\' :: 'x' :: hexDigits 2 c.toNat
  else if c.toNat < 0x10000 then '\\' :: 'u' :: hexDigits 4 c.toNat
  else '\\' :: 'U' :: hexDigits 8 c.toNat

/-- The quote that a text is shown in. -/
def quoteFor (t : Text) : Char :=
  if t.contains '\'' && !t.contains '"' then '"' else '\''

/-- A text between quotes. -/
def quoted (t : Text) : Text :=
  let q := quoteFor t
  q :: (t.flatMap (quotedChar q) ++ [q])

end Shorthand
