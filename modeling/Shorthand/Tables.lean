import Shorthand.Text.Basic

/-!
# Abbreviation tables

A table maps texts to texts, in the order in which its keys were first written. Four of them serve
an expansion; once built, a set of tables never changes.
-/

namespace Shorthand

/-- A table: its entries in order, one for each key. -/
abbrev Table := List (Text × Text)

namespace Table

/-- The value of a key. -/
def get? (t : Table) (key : Text) : Option Text :=
  (t.find? (·.1 == key)).map (·.2)

/-- The value of a key, when it is not empty. -/
def nonempty? (t : Table) (key : Text) : Option Text :=
  (t.get? key).filter (!·.isEmpty)

/-- A table with a key's value set; a key that is already there keeps its place. -/
def insert (t : Table) (key value : Text) : Table :=
  match t with
  | [] => [(key, value)]
  | e :: rest => if e.1 = key then (key, value) :: rest else e :: insert rest key value

/-- A table without a key. -/
def erase (t : Table) (key : Text) : Table :=
  t.filter (·.1 != key)

end Table

/-- The tables that serve an expansion.

- `tags`: tag abbreviations, followed repeatedly
- `attributes`: abbreviations of attribute names, looked up once
- `extended`: text written after a tag name, by the suffix after `:`
- `implicit`: the tag of a node that names none, by the lower-case tag of its context -/
structure Tables where
  tags : Table := []
  attributes : Table := []
  extended : Table := []
  implicit : Table := []
  deriving DecidableEq, Repr

end Shorthand
