import Mathlib.Data.List.Dedup
import Shorthand.Resolver

/-!
# Where tag abbreviations lead

A name is followed through the table of tag abbreviations. Keys are in lower case and values are
not, so a chain of names may come back to a key in another spelling.

- `Table.Leads`: a name stands for another one, so that the chain goes on. `nameChain_induction`
  follows a chain from its first name on.
- `Table.follow`: the loop that follows a name and keeps the keys that it has looked up. It stops
  where the chain ends (`snd_follow`), and looks no key up twice.
- `expandName_idem`: the last name of a chain stands for nothing but itself.
- `expandName_rests`: how many look-ups it takes, and why the chain ends there.
-/

namespace Shorthand

variable {table : Table} {name next : Text}

/-! ## Tables without some of their keys -/

namespace Table

/-- A table without some keys. -/
def without (t : Table) (keys : List Text) : Table :=
  t.filter fun e => !keys.contains e.1

theorem without_nil (t : Table) : t.without [] = t :=
  List.filter_eq_self.2 fun _ _ => rfl

theorem erase_without (t : Table) (keys : List Text) (key : Text) :
    (t.without keys).erase key = t.without (key :: keys) := by
  rw [erase, without, without, List.filter_filter]
  refine List.filter_congr fun e _ => ?_
  rw [List.contains_cons, Bool.not_or, bne]

theorem erase_comm (t : Table) (key key' : Text) :
    (t.erase key).erase key' = (t.erase key').erase key :=
  List.filter_comm ..

theorem get?_without (t : Table) (keys : List Text) (key : Text) :
    (t.without keys).get? key = if key ∈ keys then none else t.get? key := by
  rw [get?, get?, without, List.find?_filter]
  split
  · refine Option.map_eq_none_iff.2 (List.find?_eq_none.2 fun e _ he => ?_)
    simp only [Bool.not_eq_eq_eq_not, Bool.not_true, List.contains_eq_mem, decide_eq_false_iff_not,
      beq_iff_eq, decide_eq_true_eq] at he
    exact he.1 (he.2 ▸ ‹key ∈ keys›)
  · congr 2
    funext e
    by_cases he : e.1 = key <;> simp_all

theorem get?_erase (t : Table) (key key' : Text) :
    (t.erase key).get? key' = if key' = key then none else t.get? key' := by
  have h := get?_without t [key] key'
  rw [← erase_without, without_nil] at h
  simpa using h

/-! ## Chains -/

/-- A name stands for another one: its entry is not empty, and not the name itself. -/
def Leads (table : Table) (name next : Text) : Prop :=
  table.get? (lower name) = some next ∧ next ≠ [] ∧ next ≠ name

theorem Leads.erase {key : Text} (h : table.Leads name next) (hkey : lower name ≠ key) :
    (table.erase key).Leads name next := by
  refine ⟨?_, h.2⟩
  rw [get?_erase, if_neg hkey]
  exact h.1

theorem Leads.of_erase {key : Text} (h : (table.erase key).Leads name next) :
    table.Leads name next := by
  have hget := h.1
  rw [get?_erase] at hget
  split at hget
  · cases hget
  · exact ⟨hget, h.2⟩

/-- Without the entry of its key, a name leads nowhere. -/
theorem not_leads_erase {key : Text} (hkey : lower name = key) :
    ¬(table.erase key).Leads name next := by
  rintro ⟨hget, -⟩
  rw [get?_erase, if_pos hkey] at hget
  cases hget

/-- Where a name leads nowhere, there is no entry, an empty one or the name itself. -/
theorem rests_iff : (∀ next, ¬table.Leads name next) ↔
    table.nonempty? (lower name) = none ∨ table.get? (lower name) = some name := by
  unfold Leads nonempty?
  cases table.get? (lower name) with
  | none => simp
  | some value => by_cases hempty : value = [] <;> simp [hempty]

end Table

theorem nameChain_of_leads (h : table.Leads name next) :
    nameChain table name = next :: nameChain (table.erase (lower name)) next := by
  obtain ⟨hget, hne, hnew⟩ := h
  rw [nameChain]
  split
  · simp_all
  · rename_i value hvalue
    obtain rfl : next = value := Option.some.inj (hget.symm.trans hvalue)
    rw [if_neg (by simp [hne, hnew])]

theorem nameChain_of_rests (h : ∀ next, ¬table.Leads name next) : nameChain table name = [] := by
  rw [nameChain]
  split
  · rfl
  · rename_i value hvalue
    refine if_pos ?_
    by_contra hgo
    exact h value ⟨hvalue, by simpa using hgo⟩

/-- A chain is followed from its first name on; what comes behind a name does without its entry. -/
theorem nameChain_induction {P : Table → Text → Prop}
    (rests : ∀ {table name}, (∀ next, ¬table.Leads name next) → P table name)
    (leads : ∀ {table name next}, table.Leads name next →
      P (table.erase (lower name)) next → P table name) (table : Table) (name : Text) :
    P table name := by
  fun_induction nameChain table name with
  | case1 table name hnone => exact rests fun next hnext => by simp [Table.Leads, hnone] at hnext
  | case2 table name value hvalue hstop =>
    refine rests fun next hnext => ?_
    obtain ⟨hget, hne, hnew⟩ := hnext
    obtain rfl : value = next := Option.some.inj (hvalue.symm.trans hget)
    simp [hne, hnew] at hstop
  | case3 table name value hvalue hgo ih =>
    refine leads ⟨hvalue, ?_⟩ ih
    simpa using hgo

theorem expandName_of_leads (h : table.Leads name next) :
    expandName table name = expandName (table.erase (lower name)) next := by
  rw [expandName, nameChain_of_leads h, List.getLastD_cons, expandName]

theorem expandName_of_rests (h : ∀ next, ¬table.Leads name next) : expandName table name = name := by
  rw [expandName, nameChain_of_rests h]
  rfl

/-- Each name of a chain stands for the one behind it. -/
theorem isChain_nameChain (table : Table) (name : Text) :
    (name :: nameChain table name).IsChain table.Leads := by
  induction table, name using nameChain_induction with
  | rests hrests =>
    rw [nameChain_of_rests hrests]
    exact .singleton _
  | leads hleads ih =>
    rw [nameChain_of_leads hleads]
    exact .cons_cons hleads (ih.imp fun _ _ => Table.Leads.of_erase)

/-! ## Following the last name again -/

/-- Without the entry of a key, a chain ends at that key or where it did before. -/
theorem expandName_erase (table : Table) (name key : Text) :
    lower (expandName (table.erase key) name) = key ∨
      expandName table name = expandName (table.erase key) name := by
  induction table, name using nameChain_induction with
  | @rests table name hrests =>
    right
    rw [expandName_of_rests hrests,
      expandName_of_rests fun next hnext => hrests next hnext.of_erase]
  | @leads table name next hleads ih =>
    by_cases hkey : lower name = key
    · left
      rwa [expandName_of_rests fun _ => Table.not_leads_erase hkey]
    · rwa [expandName_of_leads hleads, expandName_of_leads (hleads.erase hkey), Table.erase_comm]

/-- **Following a name is idempotent.** -/
theorem expandName_idem (table : Table) (name : Text) :
    expandName table (expandName table name) = expandName table name := by
  induction table, name using nameChain_induction with
  | rests hrests => rw [expandName_of_rests hrests, expandName_of_rests hrests]
  | @leads table name next hleads ih =>
    rw [expandName_of_leads hleads]
    generalize hlast : expandName (table.erase (lower name)) next = last at ih
    rcases expandName_erase table last (lower name) with hkey | hsame
    · -- the chain has come back to the key of `name`, so it goes round from there
      rw [ih] at hkey
      by_cases hend : next = last
      · refine expandName_of_rests fun other ⟨hother, _, hnew⟩ => hnew ?_
        rw [hkey, hleads.1, hend] at hother
        exact (Option.some.inj hother).symm
      · have hround : table.Leads last next := ⟨hkey ▸ hleads.1, hleads.2.1, hend⟩
        rw [expandName_of_leads hround, hkey, hlast]
    · rw [hsame, ih]

/-- A cycle of keys ends at the spelling that the table gives. -/
example : expandName [(['p'], ['Q']), (['q'], ['P'])] ['p'] = ['P'] := by decide +kernel

/-! ## Looking keys up -/

namespace Table

/-- The loop that follows a name: the keys that it has looked up, last first, in front of those in
`seen`, and the name at which it stops. A key is not looked up again. -/
def follow (table : Table) (seen : List Text) (name : Text) : List Text × Text :=
  if lower name ∈ seen then (seen, name)
  else
    match _ : table.get? (lower name) with
    | none => (lower name :: seen, name)
    | some value =>
      if value.isEmpty || value = name then (lower name :: seen, name)
      else follow table (lower name :: seen) value
termination_by (table.without seen).length
decreasing_by
  have hget : (table.without seen).get? (lower name) = some value := by
    rwa [get?_without, if_neg ‹_›]
  rw [← erase_without]
  exact length_erase_lt hget

/-- The loop stops at the last name of the chain. -/
theorem snd_follow (table : Table) (seen : List Text) (name : Text) :
    (table.follow seen name).2 = expandName (table.without seen) name := by
  fun_induction follow table seen name with
  | case1 seen name hseen =>
    refine (expandName_of_rests fun next hnext => ?_).symm
    have hget := hnext.1
    rw [get?_without, if_pos hseen] at hget
    cases hget
  | case2 seen name hseen hnone =>
    refine (expandName_of_rests fun next hnext => ?_).symm
    have hget := hnext.1
    rw [get?_without, if_neg hseen, hnone] at hget
    cases hget
  | case3 seen name hseen value hvalue hstop =>
    refine (expandName_of_rests fun next ⟨hget, hne, hnew⟩ => ?_).symm
    rw [get?_without, if_neg hseen, hvalue] at hget
    obtain rfl := Option.some.inj hget
    simp [hne, hnew] at hstop
  | case4 seen name hseen value hvalue hgo ih =>
    have hleads : (table.without seen).Leads name value := by
      refine ⟨?_, by simpa using hgo⟩
      rwa [get?_without, if_neg hseen]
    rw [ih, expandName_of_leads hleads, erase_without]

theorem mem_keys_of_get? {key value : Text} (h : table.get? key = some value) :
    key ∈ table.map Prod.fst := by
  obtain ⟨e, he, -⟩ := Option.map_eq_some_iff.1 h
  have hkey : e.1 = key := by simpa using List.find?_some he
  exact hkey ▸ List.mem_map_of_mem (List.mem_of_find?_eq_some he)

/-- The loop looks up different keys. -/
theorem nodup_follow {seen : List Text} (h : seen.Nodup) : (table.follow seen name).1.Nodup := by
  fun_induction follow table seen name with
  | case1 seen name hseen => exact h
  | case2 seen name hseen hnone => exact h.cons hseen
  | case3 seen name hseen value hvalue hstop => exact h.cons hseen
  | case4 seen name hseen value hvalue hgo ih => exact ih (h.cons hseen)

/-- The keys that the loop looks up, except for the last, are keys of the table. -/
theorem tail_follow_subset {seen : List Text} (h : seen ⊆ table.map Prod.fst) :
    (table.follow seen name).1.tail ⊆ table.map Prod.fst := by
  fun_induction follow table seen name with
  | case1 seen name hseen => exact fun key hkey => h (List.mem_of_mem_tail hkey)
  | case2 seen name hseen hnone => exact h
  | case3 seen name hseen value hvalue hstop => exact h
  | case4 seen name hseen value hvalue hgo ih =>
    exact ih (List.cons_subset.2 ⟨mem_keys_of_get? hvalue, h⟩)

/-- There is at most one look-up more than there are keys. -/
theorem length_follow_le (table : Table) (name : Text) :
    (table.follow [] name).1.length ≤ (table.map Prod.fst).dedup.length + 1 := by
  have hnodup : (table.follow [] name).1.tail.Nodup := (nodup_follow .nil).tail
  have hsubset : (table.follow [] name).1.tail ⊆ (table.map Prod.fst).dedup := fun key hkey =>
    List.mem_dedup.2 (tail_follow_subset (List.nil_subset _) hkey)
  have hlength := hnodup.length_le_of_subset hsubset
  rw [List.length_tail] at hlength
  omega

end Table

/-- Why a chain ends where it does. -/
theorem expandName_end (table : Table) (name : Text) :
    table.nonempty? (lower (expandName table name)) = none ∨
      table.get? (lower (expandName table name)) = some (expandName table name) ∨
      ∃ earlier ∈ (name :: nameChain table name).dropLast,
        lower (expandName table name) = lower earlier := by
  induction table, name using nameChain_induction with
  | rests hrests =>
    rw [expandName_of_rests hrests]
    exact (Table.rests_iff.1 hrests).imp_right .inl
  | @leads table name next hleads ih =>
    rw [expandName_of_leads hleads, nameChain_of_leads hleads, List.dropLast_cons_cons]
    generalize expandName (table.erase (lower name)) next = last at ih
    by_cases hkey : lower last = lower name
    · exact .inr (.inr ⟨name, List.mem_cons_self, hkey⟩)
    · rw [Table.nonempty?, Table.get?_erase, if_neg hkey] at ih
      refine ih.imp_right (Or.imp_right ?_)
      rintro ⟨earlier, hmem, hearlier⟩
      exact ⟨earlier, List.mem_cons_of_mem _ hmem, hearlier⟩

/-- **Following a name stops**: after at most one look-up more than the table has keys, at a name
that has no entry, an empty one or itself, or whose key is that of an earlier name of the chain. -/
theorem expandName_rests (table : Table) (name : Text) :
    (∃ keys, table.follow [] name = (keys, expandName table name) ∧ keys.Nodup ∧
      keys.length ≤ (table.map Prod.fst).dedup.length + 1) ∧
    (name :: nameChain table name).IsChain table.Leads ∧
    (name :: nameChain table name).getLast? = some (expandName table name) ∧
    (table.nonempty? (lower (expandName table name)) = none ∨
      table.get? (lower (expandName table name)) = some (expandName table name) ∨
      ∃ earlier ∈ (name :: nameChain table name).dropLast,
        lower (expandName table name) = lower earlier) := by
  have hstop : (table.follow [] name).2 = expandName table name := by
    rw [Table.snd_follow, Table.without_nil]
  refine ⟨⟨_, Prod.ext rfl hstop, Table.nodup_follow .nil, Table.length_follow_le table name⟩,
    isChain_nameChain table name, ?_, expandName_end table name⟩
  rw [List.getLast?_cons, expandName, List.getLastD_eq_getLast?]

end Shorthand
