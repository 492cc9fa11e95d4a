import Shorthand.Text.Blank
import Shorthand.Text.Lowercase
import Shorthand.Fault
import Shorthand.Tables

/-!
# Resolvers

A resolver turns the tag that a node writes, which may be none, into the tag of the output. It may
look at the open tags and at the fragments written so far.

- `nameChain`, `expandName`: a tag followed through the table of tag abbreviations.
- `implicitName`: the tag of a node that names none, from its context.
- `Tables.resolver`: the resolver that works with a set of tables.
-/

namespace Shorthand

/-- A resolved tag: the name, which the closing fragment repeats, and a text written after the name
in the opening fragment. -/
structure TagName where
  name : Text
  extension : Text := []
  deriving DecidableEq, Repr

/-- A way to turn a node's tag into the tag of the output, given the open tags (innermost first) and
the fragments written so far. -/
abbrev Resolver := (tag : Text) → (openTags fragments : List Text) → Except Fault TagName

/-- The resolver that resolves nothing. -/
def Resolver.none : Resolver := fun _ _ _ => .error .noResolver

/-! ## Tag abbreviations -/

theorem Table.length_erase_lt {t : Table} {key value : Text} (h : t.get? key = some value) :
    (t.erase key).length < t.length := by
  obtain ⟨e, he, -⟩ := Option.map_eq_some_iff.1 h
  refine List.length_filter_lt_length_iff_exists.2 ⟨e, List.mem_of_find?_eq_some he, ?_⟩
  have := List.find?_some he
  simp_all

/-- The names that a name stands for, one after the other. An entry is used once; an empty one and
one that maps a name to itself lead nowhere. -/
def nameChain (table : Table) (name : Text) : List Text :=
  match _ : table.get? (lower name) with
  | none => []
  | some value =>
    if value.isEmpty || value = name then []
    else value :: nameChain (table.erase (lower name)) value
termination_by table.length
decreasing_by exact Table.length_erase_lt ‹_›

/-- The last name that a name stands for. -/
def expandName (table : Table) (name : Text) : Text :=
  (nameChain table name).getLastD name

/-! ## Implied tags -/

/-- The tag of a node that names none and has nothing to tell it. -/
def defaultTag : Text := "div".toList

/-- The name that an opening fragment starts with, in lower case. -/
def fragmentName (fragment : Text) : Text :=
  lower ((fragment.drop 1).takeWhile fun c => !(isBlank c || c == '>'))

/-- The tag implied by the last fragment. -/
def impliedByFragment (implicit : Table) (fragments : List Text) : Option Text :=
  match fragments.getLast? with
  | some fragment =>
    if (fragmentName fragment).isEmpty then none else implicit.get? (fragmentName fragment)
  | none => none

/-- The tag implied by the context: by the enclosing tag, else by the last fragment. -/
def implicitName (implicit : Table) (openTags fragments : List Text) : Text :=
  match openTags.head?.bind fun tag => implicit.get? (lower tag) with
  | some name => name
  | none => (impliedByFragment implicit fragments).getD defaultTag

/-! ## Resolving through tables -/

/-- The tag that a node's tag stands for. The part before the first `:` is a name, the part after
it selects an extension. -/
def Tables.resolve (tables : Tables) (tag : Text) (openTags fragments : List Text) : TagName :=
  let base := Text.beforeFirst ':' tag
  let suffix := Text.afterFirst ':' tag
  let name := if base.isEmpty then [] else expandName tables.tags base
  { name := if name.isEmpty then implicitName tables.implicit openTags fragments else name
    extension := if suffix.isEmpty then [] else (tables.extended.get? suffix).getD [] }

/-- The resolver that works with a set of tables. -/
def Tables.resolver (tables : Tables) : Resolver :=
  fun tag openTags fragments => .ok (tables.resolve tag openTags fragments)

end Shorthand
