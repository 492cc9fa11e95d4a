import Shorthand.Numeral

/-!
# Decimal notation of binary fractions

A binary64 number is written with the fewest decimal digits that read back as the same number, and
of those the nearest ones.

- `Binary64`: the sign, the power and the fraction in the bits of a binary64 number.
- `BinaryFraction`: a positive number `mantissa * 2 ^ exponent` with the gap to its neighbours.
- `BinaryFraction.shortest`: its digits and their power of ten. The coarsest decimal grid that has a
  point close enough wins.
- `writeReal`: the text of a number, positional when the first digit stands for a power of ten from
  `10 ^ (-4)` to `10 ^ 15`, otherwise with an exponent of at least two digits.
-/

namespace Shorthand

namespace Binary64

/-- Whether the sign bit is set. -/
def isNegative (bits : UInt64) : Bool :=
  bits.toNat >>> 63 == 1

/-- The bits without the sign. -/
def magnitude (bits : UInt64) : Nat :=
  bits.toNat % (1 <<< 63)

/-- The eleven bits of the power of two. -/
def power (bits : UInt64) : Nat :=
  magnitude bits >>> 52

/-- The bits after the power. -/
def fraction (bits : UInt64) : Nat :=
  bits.toNat % (1 <<< 52)

/-- The magnitude of an infinite number; the ones above it are no numbers. -/
def infinity : Nat := 0x7FF <<< 52

end Binary64

/-- A positive binary fraction `mantissa * 2 ^ exponent`. -/
structure BinaryFraction where
  mantissa : Nat
  exponent : Int
  /-- The next smaller number is only half as far away as the next larger one. -/
  lowerIsClose : Bool
  deriving DecidableEq, Repr

namespace BinaryFraction

/-- The magnitude of the finite number with these bits. -/
def ofBits (bits : UInt64) : BinaryFraction :=
  let fraction := Binary64.fraction bits
  let power := Binary64.power bits
  if power = 0 then ⟨fraction, -1074, false⟩
  else ⟨(1 <<< 52) + fraction, (power : Int) - 1075, fraction == 0 && 1 < power⟩

/-- The multiple of `10 ^ k` nearest to the number, if it reads back as the number: if it is no
farther than half the gap, the half itself only for an even mantissa. Of two equally near ones the
even one is taken. -/
def nearestMultiple? (b : BinaryFraction) (k : Int) : Option Nat :=
  let scale := Nat.pow 10 (-k).toNat <<< (b.exponent - 2).toNat
  let unit := Nat.pow 10 k.toNat <<< (2 - b.exponent).toNat
  let value := 4 * b.mantissa * scale
  let low := (4 * b.mantissa - if b.lowerIsClose then 1 else 2) * scale
  let high := (4 * b.mantissa + 2) * scale
  let readsBack (d : Nat) : Bool :=
    0 < d && (if b.mantissa % 2 = 0 then low ≤ d * unit && d * unit ≤ high
      else low < d * unit && d * unit < high)
  let below := value / unit
  let above := below + 1
  let belowIsNearer : Bool :=
    2 * value < (below + above) * unit || (2 * value = (below + above) * unit && below % 2 = 0)
  if readsBack below && (belowIsNearer || !readsBack above) then some below
  else if readsBack above then some above
  else none

/-- The digits of the number as a natural number, and the power of ten of the last one. -/
def shortest (b : BinaryFraction) : Nat × Int :=
  ((List.range 640).findSome? fun (i : Nat) =>
    let k : Int := 310 - i
    (b.nearestMultiple? k).map (·, k)).getD (0, 0)

end BinaryFraction

/-- Digits with the last one standing for `10 ^ k`, in positional or exponent notation. -/
def layoutDigits (ds : Text) (k : Int) : Text :=
  let point := ds.length + k
  let power := point - 1
  if -4 ≤ power && power < 16 then
    if point ≤ 0 then '0' :: '.' :: (List.replicate (-point).toNat '0' ++ ds)
    else
      let ds := ds ++ List.replicate k.toNat '0'
      let rest := ds.drop point.toNat
      ds.take point.toNat ++ '.' :: (if rest.isEmpty then ['0'] else rest)
  else
    let rest := ds.drop 1
    let sign := if power < 0 then '-' else '+'
    let powerDigits := decimalDigits power.natAbs
    ds.take 1 ++ (if rest.isEmpty then [] else '.' :: rest) ++
      'e' :: sign :: (List.replicate (2 - powerDigits.length) '0' ++ powerDigits)

/-- The text of the binary64 number with these bits. -/
def writeReal (bits : UInt64) : Text :=
  let magnitude := Binary64.magnitude bits
  if Binary64.infinity < magnitude then "nan".toList
  else
    let unsigned :=
      if magnitude = Binary64.infinity then "inf".toList
      else if magnitude = 0 then "0.0".toList
      else
        let (d, k) := (BinaryFraction.ofBits bits).shortest
        layoutDigits (decimalDigits d) k
    if Binary64.isNegative bits then '-' :: unsigned else unsigned

end Shorthand
