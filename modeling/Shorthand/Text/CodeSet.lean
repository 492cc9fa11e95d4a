/-!
# Sets of code points

A set of code points is written as the increasing list of the points at which membership changes:
the set starts outside, and each listed point enters it or leaves it.
-/

namespace Shorthand

/-- The points at which membership of a set of code points changes, in increasing order. -/
abbrev CodeSet := List Nat

/-- A code point is in the set when an odd number of changes lie at or before it. -/
def CodeSet.contains (s : CodeSet) (n : Nat) : Bool :=
  (s.takeWhile (· ≤ n)).length % 2 == 1

end Shorthand
