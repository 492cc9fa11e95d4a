import Shorthand.Numeral

/-!
# Numbering

A repeated fragment is numbered: `$` stands for the number of the copy, `$@3` counts from 3, `$@-`
counts down, `$@-10` down from 10, and more `$` signs widen the number.

- `Placeholder`: one such mark; `Placeholder.fill` is the number that replaces it.
- `NumberPiece.scan`: the placeholders of a fragment and the characters between them.
- `numberFragment`: the fragment of one copy.
-/

namespace Shorthand

/-- A mark that a copy's number replaces. -/
structure Placeholder where
  /-- The number of `$` signs. -/
  width : Nat
  descending : Bool := false
  /-- The digits of the number to count from; none, or zero, for the first (last) copy. -/
  start : Text := []
  deriving DecidableEq, Repr

namespace Placeholder

/-- The number to count from among `times` copies. -/
def offset (p : Placeholder) (times : Int) : Except Fault Int := do
  let start ← readNumeral p.start
  return if start ≠ 0 then start else if p.descending then times - 1 else 0

/-- A number written with zeros in front. The zeros make up the width less twice the length of the
number, so that they grow fewer as the number grows longer. -/
def pad (width : Nat) (value : Text) : Text :=
  List.replicate (width - value.length - value.length) '0' ++ value

/-- The number of copy `n` (from 0) among `times`, as it is written. -/
def fill (n times : Int) (p : Placeholder) : Except Fault Text := do
  let offset ← p.offset times
  let value ← writeNumeral (if p.descending then offset - n else offset + n)
  return pad p.width value

end Placeholder

/-- A piece of a fragment: a character or a placeholder. -/
inductive NumberPiece
  | plain (c : Char)
  | slot (p : Placeholder)
  deriving DecidableEq, Repr

namespace NumberPiece

/-- The direction and start that may follow the `$` signs, and what follows them. -/
def readStart (width : Nat) : Text → Placeholder × Text
  | '@' :: '-' :: rest => (⟨width, true, rest.takeWhile isDigit⟩, rest.dropWhile isDigit)
  | '@' :: rest => (⟨width, false, rest.takeWhile isDigit⟩, rest.dropWhile isDigit)
  | rest => (⟨width, false, []⟩, rest)

theorem length_readStart (width : Nat) (t : Text) : (readStart width t).2.length ≤ t.length := by
  unfold readStart
  split
  · rename_i rest
    have := (List.dropWhile_sublist (l := rest) isDigit).length_le
    simp; omega
  · rename_i rest _
    have := (List.dropWhile_sublist (l := rest) isDigit).length_le
    simp; omega
  · simp

/-- The pieces of a fragment. A row of `$` signs is one placeholder. -/
def scan (t : Text) : List NumberPiece :=
  match t with
  | [] => []
  | c :: rest =>
    if c = '$' then
      let width := (rest.takeWhile (· == '$')).length + 1
      let after := readStart width (rest.dropWhile (· == '$'))
      slot after.1 :: scan after.2
    else plain c :: scan rest
termination_by t.length
decreasing_by
  · have h1 := length_readStart ((rest.takeWhile (· == '$')).length + 1)
      (rest.dropWhile (· == '$'))
    have h2 := (List.dropWhile_sublist (l := rest) (· == '$')).length_le
    simp; omega
  · simp

/-- A piece in copy `n` among `times`. -/
def fill (n times : Int) : NumberPiece → Except Fault Text
  | plain c => .ok [c]
  | slot p => p.fill n times

end NumberPiece

/-- A fragment with its placeholders filled for copy `n` among `times`. -/
def numberFragment (fragment : Text) (n times : Int) : Except Fault Text :=
  return (← (NumberPiece.scan fragment).mapM (NumberPiece.fill n times)).flatten

end Shorthand
