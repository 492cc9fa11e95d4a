import Shorthand.Tables
import Shorthand.Value

/-!
# Tables from settings

A table is given as a mapping. Its keys and values may be anything: what is not a text is written as
one, and nothing is the empty text. Two keys with the same text are one key, whose last value
counts.
-/

namespace Shorthand

/-- The text that a table value stands for. -/
def tableText : Value → Except Fault Text
  | .scalar .null => .ok []
  | v => v.display

/-- A table with the entries of a mapping written into it. -/
def Table.addEntries (t : Table) : List (Scalar × Value) → Except Fault Table
  | [] => .ok t
  | (key, value) :: rest => do
    let name ← key.display
    addEntries (t.insert name (← tableText value)) rest

/-- The table that a value describes; `name` is the name of the table in messages. -/
def Table.ofValue (name : String) : Value → Except Fault Table
  | .scalar .null => .ok []
  | .mapping entries => addEntries [] entries
  | v => .error (.settings (.tableKind name.toList v.kind))

/-- The tables that four values describe, checked in this order. -/
def Tables.ofValues (tags attributes extended implicit : Value) : Except Fault Tables := do
  let tags ← Table.ofValue "tags" tags
  let attributes ← Table.ofValue "attributes" attributes
  let extended ← Table.ofValue "extended" extended
  let implicit ← Table.ofValue "implicit" implicit
  return { tags, attributes, extended, implicit }

namespace Tables

/-- The sizes of the tables, as a short description of them. -/
def describe (t : Tables) : Text :=
  "AbbreviationTables(tags=".toList ++ decimalDigits t.tags.length ++
    ", attributes=".toList ++ decimalDigits t.attributes.length ++
    ", extended=".toList ++ decimalDigits t.extended.length ++
    ", implicit=".toList ++ decimalDigits t.implicit.length ++ [')']

/-- An attempt to change a set of tables. -/
inductive Change
  /-- To put another table in a field's place. -/
  | replaceField (name : Text)
  | removeField (name : Text)
  /-- To set an entry of a table. -/
  | setItem (table : Text)
  deriving DecidableEq, Repr

/-- The tables after an attempt to change them, which they always refuse. -/
def change (t : Tables) : Change → Fault × Tables
  | .replaceField _ => (.fixedField, t)
  | .removeField _ => (.fixedField, t)
  | .setItem _ => (.wrongType .fixedItem, t)

end Tables

end Shorthand
