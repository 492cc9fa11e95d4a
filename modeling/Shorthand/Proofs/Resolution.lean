import Shorthand.Proofs.Attribute
import Shorthand.Proofs.NameChain

/-!
# Where resolved tags come from

A tag is resolved to the name that a node writes, or to one that stands in the tables.

- `expandName_eq_or_exists_mem`, `implicitName_eq_or_exists_mem`: a name followed through the tag
  abbreviations, and the name that a context implies.
- `Tables.resolve_named`, `Tables.resolve_unnamed`: what a tag with a name and one without are
  resolved to.
- `Tables.resolve_name_cases`, `Tables.resolve_extension_cases`: the values that a resolved tag may
  have.
-/

namespace Shorthand

/-! ## Tag abbreviations -/

theorem nameChain_ne_nil {table : Table} {name value : Text} (h : value ∈ nameChain table name) :
    value ≠ [] := by
  fun_induction nameChain table name with
  | case1 => simp at h
  | case2 => simp at h
  | case3 table name next hget hne ih =>
    rcases List.mem_cons.1 h with rfl | h
    · rintro rfl
      simp at hne
    · exact ih h

/-- The names that a name stands for are values of the table. -/
theorem exists_mem_of_mem_nameChain {table : Table} {name value : Text}
    (h : value ∈ nameChain table name) : ∃ entry ∈ table, entry.2 = value := by
  fun_induction nameChain table name with
  | case1 => cases h
  | case2 => cases h
  | case3 table name next hget hnext ih =>
    rcases List.mem_cons.1 h with rfl | h
    · exact Table.exists_mem_of_get? hget
    · obtain ⟨entry, hentry, hvalue⟩ := ih h
      exact ⟨entry, List.mem_of_mem_filter hentry, hvalue⟩

theorem expandName_eq_or_mem_nameChain (table : Table) (name : Text) :
    expandName table name = name ∨ expandName table name ∈ nameChain table name :=
  List.mem_cons.1 List.getLastD_mem_cons

theorem expandName_ne_nil {table : Table} {name : Text} (h : name ≠ []) :
    expandName table name ≠ [] := by
  rcases expandName_eq_or_mem_nameChain table name with heq | hmem
  · rwa [heq]
  · exact nameChain_ne_nil hmem

/-- A name stands for itself or for a value of the table. -/
theorem expandName_eq_or_exists_mem (table : Table) (name : Text) :
    expandName table name = name ∨ ∃ entry ∈ table, entry.2 = expandName table name :=
  (expandName_eq_or_mem_nameChain table name).imp_right exists_mem_of_mem_nameChain

/-! ## Implied tags -/

/-- The tag implied by a context is the default tag or a value of the table. -/
theorem implicitName_eq_or_exists_mem (implicit : Table) (openTags fragments : List Text) :
    implicitName implicit openTags fragments = defaultTag ∨
      ∃ entry ∈ implicit, entry.2 = implicitName implicit openTags fragments := by
  have hfragment : ∀ name ∈ impliedByFragment implicit fragments,
      ∃ entry ∈ implicit, entry.2 = name := by
    intro name hname
    unfold impliedByFragment at hname
    split at hname
    · split at hname
      · cases hname
      · exact Table.exists_mem_of_get? hname
    · cases hname
  rw [implicitName]
  split
  · obtain ⟨tag, -, hget⟩ := Option.bind_eq_some_iff.1 ‹_›
    exact .inr (Table.exists_mem_of_get? hget)
  · cases himplied : impliedByFragment implicit fragments with
    | none => exact .inl rfl
    | some name => exact .inr (hfragment name himplied)

/-! ## Resolved tags -/

namespace Tables

variable {tables : Tables} {tag : Text}

/-- A tag with a name comes from the tables alone. -/
theorem resolve_named (h : Text.beforeFirst ':' tag ≠ []) (openTags fragments : List Text) :
    tables.resolve tag openTags fragments = {
      name := expandName tables.tags (Text.beforeFirst ':' tag)
      extension := if (Text.afterFirst ':' tag).isEmpty then []
        else (tables.extended.get? (Text.afterFirst ':' tag)).getD [] } := by
  have hne : expandName tables.tags (Text.beforeFirst ':' tag) ≠ [] := expandName_ne_nil h
  simp [resolve, h, hne]

/-- A tag without a name has the name that the context implies. -/
theorem resolve_unnamed (h : Text.beforeFirst ':' tag = []) (openTags fragments : List Text) :
    (tables.resolve tag openTags fragments).name =
      implicitName tables.implicit openTags fragments := by
  simp [resolve, h]

variable (tables tag) (openTags fragments : List Text)

/-- A tag is resolved to the name that is written, to the default tag or to a value of a table. -/
theorem resolve_name_cases :
    let name := (tables.resolve tag openTags fragments).name
    name = Text.beforeFirst ':' tag ∨ name = defaultTag ∨
      ∃ entry ∈ tables.tags ++ tables.implicit, entry.2 = name := by
  intro name
  by_cases hbase : Text.beforeFirst ':' tag = []
  · rw [show name = _ from resolve_unnamed hbase openTags fragments]
    right
    exact (implicitName_eq_or_exists_mem tables.implicit openTags fragments).imp_right
      fun ⟨entry, hentry, hvalue⟩ => ⟨entry, List.mem_append_right _ hentry, hvalue⟩
  · rw [show name = _ from congrArg TagName.name (resolve_named hbase openTags fragments)]
    exact (expandName_eq_or_exists_mem tables.tags _).imp_right
      fun ⟨entry, hentry, hvalue⟩ => .inr ⟨entry, List.mem_append_left _ hentry, hvalue⟩

/-- The extension of a tag is empty or a value of the table of extensions. -/
theorem resolve_extension_cases :
    let extension := (tables.resolve tag openTags fragments).extension
    extension = [] ∨ ∃ entry ∈ tables.extended, entry.2 = extension := by
  simp only [resolve]
  split
  · exact .inl rfl
  · cases hget : tables.extended.get? (Text.afterFirst ':' tag) with
    | none => exact .inl rfl
    | some extension => exact .inr (Table.exists_mem_of_get? hget)

end Tables

end Shorthand
