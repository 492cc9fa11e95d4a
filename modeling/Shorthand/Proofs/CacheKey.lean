import Mathlib.Data.List.Basic
import Mathlib.Tactic.IntervalCases
import Shorthand.Cache

/-!
# The files of keys

- `length_cacheKey`, `isKeyChar_of_mem`: a key is six letters, digits, `-` or `_`.
- `Cache.row`: the row of names from the cache directory to a key's file. Rows are equally long
  (`Cache.length_row`), and two sources have one row exactly when they have one key
  (`Cache.row_inj`).
- `Cache.StaysBelow`: the extension does not lead upwards; then no row does
  (`Cache.up_not_mem_row`).
-/

namespace Shorthand

/-! ## Keys -/

/-- A character that a key may hold. -/
def isKeyChar (c : Char) : Bool :=
  c.isAlphanum || c == '-' || c == '_'

theorem isKeyChar_base64Char {digit : Nat} (h : digit < 64) :
    isKeyChar (base64Char digit) = true := by
  have hall : ∀ d : Fin 64, isKeyChar (base64Char d) = true := by decide
  exact hall ⟨digit, h⟩

theorem length_cacheKey (source : Text) : (cacheKey source).length = 6 := rfl

theorem isKeyChar_of_mem {source : Text} {c : Char} (h : c ∈ cacheKey source) :
    isKeyChar c = true := by
  obtain ⟨shift, -, rfl⟩ := List.mem_map.1 h
  exact isKeyChar_base64Char (Nat.mod_lt _ (by decide))

theorem slash_not_mem_cacheKey (source : Text) : '/' ∉ cacheKey source := by
  intro h
  have := isKeyChar_of_mem h
  revert this
  decide

theorem dot_not_mem_cacheKey (source : Text) : '.' ∉ cacheKey source := by
  intro h
  have := isKeyChar_of_mem h
  revert this
  decide

theorem cacheKey_ne_nil (source : Text) : cacheKey source ≠ [] :=
  List.ne_nil_of_length_eq_add_one (length_cacheKey source)

/-! ## Parts -/

/-- The pieces of a text between slashes, when a beginning without slashes is put before it. -/
theorem splitOn_append {a : Text} (ha : '/' ∉ a) (b : Text) :
    (a ++ b).splitOn '/' = (a ++ (b.splitOn '/').headD []) :: (b.splitOn '/').tail := by
  induction a with
  | nil =>
    obtain ⟨first, more, h⟩ := List.exists_cons_of_ne_nil (List.splitOn_ne_nil '/' b)
    simp [h]
  | cons c a ih =>
    rw [List.mem_cons, not_or] at ha
    rw [List.cons_append, List.splitOn_cons_eq_if_modifyHead, if_neg (by simpa using Ne.symm ha.1),
      ih ha.2]
    rfl

/-- The names that an extension adds behind its first slash. -/
def extensionParts (extension : Text) : List Text :=
  (extension.splitOn '/').tail.filter fun part => !part.isEmpty && part != ['.']

theorem extensionParts_of_not_mem {extension : Text} (h : '/' ∉ extension) :
    extensionParts extension = [] := by
  rw [extensionParts, List.splitOn_eq_singleton h]
  rfl

theorem splitParts_cacheKey (source extension : Text) :
    Path.splitParts (cacheKey source ++ extension) =
      (cacheKey source ++ (extension.splitOn '/').headD []) :: extensionParts extension := by
  obtain ⟨c, key, hkey⟩ := List.exists_cons_of_ne_nil (cacheKey_ne_nil source)
  have hdot : c ≠ '.' := by
    rintro rfl
    exact dot_not_mem_cacheKey source (by simp [hkey])
  rw [Path.splitParts, splitOn_append (slash_not_mem_cacheKey source), List.filter_cons_of_pos]
  · rfl
  · simp [hkey, hdot]

namespace Cache

/-- The directories on the way to a key's file are named by pairs of its characters. -/
theorem shards_eq {key : Text} (h : key.length = 6) (level : Int) :
    shards level key = [key.take 2, (key.drop 2).take 2, key.drop 4].take level.toNat := by
  match key, h with
  | [a, b, c, d, e, f], _ =>
    rw [shards]
    by_cases hle : level.toNat ≤ 3
    · generalize level.toNat = n at hle
      interval_cases n <;> rfl
    · have hmin : min level.toNat 6 = 4 ∨ min level.toNat 6 = 5 ∨ min level.toNat 6 = 6 := by omega
      rw [List.take_of_length_le (by simp; omega)]
      show (((List.range (min level.toNat 6)).map _).filter _) = _
      rcases hmin with hmin | hmin | hmin <;> rw [hmin] <;> rfl

theorem length_shards {key : Text} (h : key.length = 6) (level : Int) :
    (shards level key).length = min level.toNat 3 := by
  rw [shards_eq h, List.length_take]
  rfl

/-- The directories are named by the successive pairs of characters of the key. -/
theorem getElem_shards {key : Text} (h : key.length = 6) {level : Int} {i : Nat}
    (hi : i < (shards level key).length) :
    (shards level key)[i] = (key.drop (2 * i)).take 2 ∧ (shards level key)[i].length = 2 := by
  have hlt : i < 3 := by
    rw [length_shards h] at hi
    omega
  match key, h with
  | [a, b, c, d, e, f], h =>
    simp only [shards_eq h, List.getElem_take]
    interval_cases i <;> exact ⟨rfl, rfl⟩

theorem mem_of_mem_shards {key shard : Text} (h : key.length = 6) {level : Int}
    (hmem : shard ∈ shards level key) {c : Char} (hc : c ∈ shard) : c ∈ key := by
  rw [shards_eq h] at hmem
  have hmem := List.mem_of_mem_take hmem
  simp only [List.mem_cons, List.not_mem_nil, or_false] at hmem
  rcases hmem with rfl | rfl | rfl
  · exact List.mem_of_mem_take hc
  · exact List.mem_of_mem_drop (List.mem_of_mem_take hc)
  · exact List.mem_of_mem_drop hc

/-! ## Rows -/

/-- The row of names from the cache directory to a key's file. -/
def row (c : Cache) (source : Text) : List Text :=
  shards c.dirLevel (cacheKey source) ++ Path.splitParts (cacheKey source ++ c.extension)

theorem pathFor_eq (c : Cache) (source : Text) :
    c.pathFor source = c.directory.append (c.row source) := rfl

/-- The number of directories between the cache directory and the files. -/
def depth (c : Cache) : Nat :=
  min c.dirLevel.toNat 3 + (extensionParts c.extension).length

theorem length_row (c : Cache) (source : Text) : (c.row source).length = c.depth + 1 := by
  rw [row, List.length_append, length_shards (length_cacheKey source), splitParts_cacheKey,
    List.length_cons, depth, Nat.add_assoc]

theorem length_dropLast_row (c : Cache) (source : Text) :
    (c.row source).dropLast.length = c.depth := by
  rw [List.length_dropLast, length_row, Nat.add_sub_cancel]

theorem row_ne_nil (c : Cache) (source : Text) : c.row source ≠ [] :=
  List.ne_nil_of_length_eq_add_one (c.length_row source)

/-- Two sources have one file exactly when they have one key. -/
theorem row_inj (c : Cache) {s t : Text} : c.row s = c.row t ↔ cacheKey s = cacheKey t := by
  refine ⟨fun h => ?_, fun h => by rw [row, row, h]⟩
  have hlen :
      (shards c.dirLevel (cacheKey s)).length = (shards c.dirLevel (cacheKey t)).length := by
    rw [length_shards (length_cacheKey s), length_shards (length_cacheKey t)]
  have hparts := (List.append_inj h hlen).2
  rw [splitParts_cacheKey, splitParts_cacheKey] at hparts
  exact List.append_cancel_right (List.cons.inj hparts).1

/-- No part of the extension behind a slash leads out of the directory that it is in. -/
def StaysBelow (c : Cache) : Prop :=
  Path.up ∉ extensionParts c.extension

theorem staysBelow_of_not_mem {c : Cache} (h : '/' ∉ c.extension) : c.StaysBelow := by
  rw [StaysBelow, extensionParts_of_not_mem h]
  exact List.not_mem_nil

theorem up_not_mem_row {c : Cache} (h : c.StaysBelow) (source : Text) :
    Path.up ∉ c.row source := by
  have hdot := dot_not_mem_cacheKey source
  intro hmem
  rcases List.mem_append.1 hmem with hmem | hmem
  · have hmem := mem_of_mem_shards (length_cacheKey source) hmem (c := '.') (by simp [Path.up])
    exact hdot hmem
  · rw [splitParts_cacheKey, List.mem_cons] at hmem
    rcases hmem with hmem | hmem
    · obtain ⟨c, key, hkey⟩ := List.exists_cons_of_ne_nil (cacheKey_ne_nil source)
      rw [hkey, List.cons_append] at hmem
      have hc : c = '.' := ((List.cons.inj hmem).1).symm
      exact hdot (by simp [hkey, hc])
    · exact h hmem

theorem up_not_mem_dropLast_row {c : Cache} (h : c.StaysBelow) (source : Text) :
    Path.up ∉ (c.row source).dropLast := fun hmem =>
  up_not_mem_row h source ((List.dropLast_sublist _).subset hmem)

/-- Without a slash in the extension, the row is the directories on the way and one name. -/
theorem row_of_not_mem {c : Cache} (h : '/' ∉ c.extension) (source : Text) :
    c.row source =
      shards c.dirLevel (cacheKey source) ++ [cacheKey source ++ c.extension] := by
  rw [row, splitParts_cacheKey, extensionParts_of_not_mem h, List.splitOn_eq_singleton h]
  rfl

/-- Without a slash in the extension, no name on the way to a file is hidden. -/
theorem isHiddenName_of_mem_row {c : Cache} (h : '/' ∉ c.extension) {source name : Text}
    (hmem : name ∈ c.row source) : isHiddenName name = false := by
  have hdot := dot_not_mem_cacheKey source
  obtain ⟨k, key, hkey⟩ := List.exists_cons_of_ne_nil (cacheKey_ne_nil source)
  rw [row_of_not_mem h, List.mem_append, List.mem_singleton] at hmem
  rw [isHiddenName, beq_eq_false_iff_ne]
  rcases hmem with hmem | rfl
  · intro hhead
    exact hdot (mem_of_mem_shards (length_cacheKey source) hmem (List.mem_of_head? hhead))
  · intro hhead
    rw [hkey, List.cons_append, List.head?_cons, Option.some.injEq] at hhead
    exact hdot (by simp [hkey, hhead])

end Cache

end Shorthand
