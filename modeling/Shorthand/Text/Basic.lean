/-!
# Text

A text is a list of characters, so lengths and positions count code points. The characters are the
Unicode scalar values: a surrogate that stands alone, which some systems have in texts too, is in
none of them.

- `beforeFirst`, `afterFirst`: the parts around the first occurrence of a character.
- `trim`: cutting a class of characters off both ends.
- `occurrences`: how often a text stands in another without overlap.
- `takePrefix?`: what is left after a given beginning.
-/

namespace Shorthand

/-- A text: a list of characters, none of which is a surrogate. -/
abbrev Text := List Char

namespace Text

/-- The part of a text before the first `sep`, all of it when there is none. -/
def beforeFirst (sep : Char) (t : Text) : Text :=
  t.takeWhile (· != sep)

/-- The part of a text after the first `sep`, nothing when there is none. -/
def afterFirst (sep : Char) (t : Text) : Text :=
  (t.dropWhile (· != sep)).drop 1

/-- A text without the characters at both ends that satisfy `p`. -/
def trim (p : Char → Bool) (t : Text) : Text :=
  ((t.dropWhile p).reverse.dropWhile p).reverse

/-- What follows `start` in a text that begins with it. -/
def takePrefix? : (start t : Text) → Option Text
  | [], t => some t
  | _ :: _, [] => none
  | a :: start, b :: t => if a = b then takePrefix? start t else none

theorem takePrefix?_eq_some {start t rest : Text} (h : takePrefix? start t = some rest) :
    t = start ++ rest := by
  induction start generalizing t with
  | nil => simpa [takePrefix?] using h
  | cons a start ih =>
    cases t with
    | nil => simp [takePrefix?] at h
    | cons b t =>
      by_cases hab : a = b
      · simp only [takePrefix?, hab, if_true] at h
        simp [hab, ih h]
      · simp [takePrefix?, hab] at h

/-- The number of places where `part` stands in a text, counted from the left without overlap.
The empty text stands before, between and after all characters. -/
def occurrences (part : Text) (t : Text) : Nat :=
  match part with
  | [] => t.length + 1
  | a :: part => go a part t
where
  /-- The count for the nonempty text `a :: part`. -/
  go (a : Char) (part : Text) (t : Text) : Nat :=
    match t with
    | [] => 0
    | c :: rest =>
      match h : takePrefix? (a :: part) (c :: rest) with
      | some rest' => go a part rest' + 1
      | none => go a part rest
  termination_by t.length
  decreasing_by
    · have := congrArg List.length (takePrefix?_eq_some h)
      simp at this ⊢; omega
    · simp

end Text

end Shorthand
