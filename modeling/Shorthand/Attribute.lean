import Shorthand.Text.Blank
import Shorthand.Tables

/-!
# Attributes

The inside of a bracket holds `name=value` pairs and other text. Names are looked up in a table,
values are quoted anew, and the rest is kept.

- `quoteValue`, `unquoteValue`: writing and reading the quotes of one value.
- `BracketPiece.scan`: the pairs and gaps of a bracket.
- `expandAttributes`: the bracket as it stands in a tag.
-/

namespace Shorthand

/-- A value in double quotes, or in single quotes when it has a double quote. -/
def quoteValue (value : Text) : Text :=
  let q := if value.contains '"' then '\'' else '"'
  q :: (value ++ [q])

/-- A value without the quotes of one kind at both of its ends. -/
def unquoteValue (value : Text) : Text :=
  match value with
  | q :: c :: rest =>
    if (q = '"' || q = '\'') && (c :: rest).getLast? = some q then (c :: rest).dropLast
    else value
  | _ => value

/-- A piece of a bracket: a pair, or text that is no part of one. -/
inductive BracketPiece
  | pair (name value : Text)
  | gap (text : Text)
  deriving DecidableEq, Repr

namespace BracketPiece

/-- A character of an attribute name. -/
def isNameChar (c : Char) : Bool :=
  c != '=' && !isBlank c

/-- A character of a value without quotes. -/
def isBareChar (c : Char) : Bool :=
  c != '"' && c != '\'' && !isBlank c

/-- The value that a text begins with, as it is written, and what follows it. A quote that is never
closed opens no value. -/
def takeValue (t : Text) : Text × Text :=
  match t with
  | [] => ([], [])
  | q :: rest =>
    if (q = '"' || q = '\'') && rest.contains q then
      (q :: (Text.beforeFirst q rest ++ [q]), Text.afterFirst q rest)
    else (t.takeWhile isBareChar, t.dropWhile isBareChar)

/-- The value that a text begins with, without its quotes, and what follows it. -/
def readValue (t : Text) : Text × Text :=
  (unquoteValue (takeValue t).1, (takeValue t).2)

theorem length_readValue (t : Text) : (readValue t).2.length ≤ t.length := by
  unfold readValue takeValue Text.afterFirst
  split
  · simp
  · rename_i q rest
    split
    · have := (List.dropWhile_sublist (l := rest) (· != q)).length_le
      simp; omega
    · exact (List.dropWhile_sublist _).length_le

/-- The pieces of a bracket. A pair's name reaches as far as it can, up to the `=`. -/
def scan (t : Text) : List BracketPiece :=
  match t with
  | [] => []
  | c :: rest =>
    if isNameChar c then
      match _ : rest.dropWhile isNameChar with
      | '=' :: after =>
        pair (c :: rest.takeWhile isNameChar) (readValue after).1 :: scan (readValue after).2
      | after => gap (c :: rest.takeWhile isNameChar) :: scan after
    else gap [c] :: scan rest
termination_by t.length
decreasing_by
  · have h : rest.dropWhile isNameChar = '=' :: after := ‹_›
    have h1 := length_readValue after
    have h2 := (List.dropWhile_sublist (l := rest) isNameChar).length_le
    simp [h] at h2 ⊢; omega
  · have h : rest.dropWhile isNameChar = after := ‹_›
    have h2 := (List.dropWhile_sublist (l := rest) isNameChar).length_le
    simp [h] at h2 ⊢; omega
  · simp

/-- A piece as it stands in a tag. -/
def render (table : Table) : BracketPiece → Text
  | pair name value => (table.nonempty? name).getD name ++ '=' :: quoteValue value
  | gap text => text

end BracketPiece

/-- The inside of a bracket as it stands in a tag. -/
def expandAttributes (table : Table) (t : Text) : Text :=
  (BracketPiece.scan t).flatMap (BracketPiece.render table)

end Shorthand
