import Shorthand.Text.Digit
import Shorthand.Fault

/-!
# Decimal numerals

Numbers are read from and written as rows of decimal digits, up to a limit on their number.
`readNumeral` and `writeNumeral` fail exactly beyond it.
-/

namespace Shorthand

/-- The largest number of digits that is read or written. -/
def digitLimit : Nat := 4300

/-- The decimal digits of a natural number. -/
def decimalDigits (n : Nat) : Text :=
  Nat.toDigits 10 n

/-- The number that a row of digits writes. -/
def readNumeral (ds : Text) : Except Fault Nat :=
  if digitLimit < ds.length then .error (.numeralTooLong ds.length) else .ok (digitsValue ds)

/-- A number in decimal digits, with a sign when it is negative. -/
def writeNumeral (z : Int) : Except Fault Text :=
  let ds := decimalDigits z.natAbs
  if digitLimit < ds.length then .error .numberTooLarge
  else .ok (if z < 0 then '-' :: ds else ds)

end Shorthand
