import Shorthand.Proofs.CacheKey
import Shorthand.Proofs.Subtree
import Shorthand.Proofs.Sweep

/-!
# The files of a cache

What the operations of a cache do inside its directory, when that is empty at first and the
extension does not lead out of it.

- `locate_pathFor`: where the path of a key's file leads. `lookup_eq_some`: when its text is found.
- `lookup_graft`, `collect_graft`, `delete_graft`, `store_graft`: each operation works on the
  entries of the directory alone.
- `Cache.Kept`: names are distinct and all files are equally deep. Every operation keeps this up.
- `Kept.store`: what a store leaves at every key's file; `Kept.exists_store`: when it succeeds.
-/

namespace Shorthand

namespace Cache

open FileTree

variable {c : Cache} {d : List Text} {t : FileTree}

/-! ## Paths -/

/-- The path of a key's file leads on from the cache directory along its row. -/
theorem locate_pathFor (h : c.StaysBelow) (t : FileTree) (source : Text) :
    t.locate (c.pathFor source) = (· ++ c.row source) <$> t.locate c.directory := by
  rw [pathFor_eq, FileTree.locate, FileTree.locate, Path.append]
  split
  · rw [follow_append]
    cases t.follow [] c.directory.parts with
    | error e => rfl
    | ok d => exact follow_of_not_mem (up_not_mem_row h source) t d
  · rfl

/-! ## Inside the directory -/

theorem kindAt_row_nil (c : Cache) (key : Text) : nil.kindAt (c.row key) = none := by
  obtain ⟨name, row, hrow⟩ := List.exists_cons_of_ne_nil (c.row_ne_nil key)
  rw [hrow, kindAt_nil_cons]

/-- A collection works on the entries of the cache directory alone. -/
theorem sweepAll_eq {inside : FileTree} (hd : t.locate c.directory = .ok d)
    (h : t.entryAt d = some (.folder inside)) (now : Int) (expiredOnly : Bool) :
    c.sweepAll now expiredOnly t =
      (t.graft d (inside.sweep expiredOnly now).1, (inside.sweep expiredOnly now).2) := by
  have hentry : t.entry c.directory = .ok (.folder inside) := by
    rw [FileTree.entry, hd, ok_bind, entryAt_eq_some.1 h]
  rw [sweepAll, hentry]
  simp only [updateFolder_eq hd h]

/-- The entries that a collection leaves, if it runs. -/
def collected (c : Cache) (now draw : Int) (force expiredOnly : Bool) (inside : FileTree) :
    FileTree :=
  if force || draw < c.gcProbability then (inside.sweep expiredOnly now).1 else inside

theorem collect_graft (h : Anchored c.directory d t) (inside : FileTree) (now draw : Int)
    (force expiredOnly : Bool) :
    c.collect now draw force expiredOnly (t.graft d inside) =
      t.graft d (c.collected now draw force expiredOnly inside) := by
  rw [collect, collected]
  split
  · rw [sweepAll_eq (h.locate_graft inside) (h.entryAt_graft inside), h.graft_graft]
  · rfl

theorem read_graft (h : Anchored c.directory d t) (hup : c.StaysBelow) (inside : FileTree)
    (key : Text) {f : File} :
    (t.graft d inside).read (c.pathFor key) = .ok f ↔
      inside.kindAt (c.row key) = some (.file f) := by
  rw [read_eq_ok, pathFor_eq, h.locate_append inside (up_not_mem_row hup key),
    ← kindAt_below (h.entryAt_graft inside)]
  simp

/-- A text is found when its file is there, has not expired and is UTF-8. -/
theorem lookup_eq_some {now : Int} {key text : Text} :
    c.lookup now t key = some text ↔
      ∃ f, t.read (c.pathFor key) = .ok f ∧ now < f.stamp ∧ f.text? = some text := by
  rw [lookup]
  cases t.read (c.pathFor key) with
  | error e => simp
  | ok f =>
    simp only [Except.ok.injEq, exists_eq_left']
    split
    · simp only [reduceCtorEq, false_iff, not_and]
      omega
    · rw [and_iff_right (by omega)]

theorem lookup_graft (h : Anchored c.directory d t) (hup : c.StaysBelow) (inside : FileTree)
    (now : Int) (key : Text) {text : Text} :
    c.lookup now (t.graft d inside) key = some text ↔
      ∃ f, inside.kindAt (c.row key) = some (.file f) ∧ now < f.stamp ∧ f.text? = some text := by
  simp only [lookup_eq_some, read_graft h hup]

/-- The entries without a key's file. -/
def dropped (c : Cache) (inside : FileTree) (key : Text) : FileTree :=
  match inside.alter removing (c.row key) with
  | .ok removed => removed
  | .error _ => inside

theorem delete_graft (h : Anchored c.directory d t) (hup : c.StaysBelow) (inside : FileTree)
    (key : Text) :
    (c.delete (t.graft d inside) key).1 = t.graft d (c.dropped inside key) := by
  have hremove : (t.graft d inside).remove (c.pathFor key) =
      t.graft d <$> inside.alter removing (c.row key) := by
    rw [pathFor_eq, FileTree.remove, h.locate_append inside (up_not_mem_row hup key), ok_bind,
      h.alter_append inside (c.row_ne_nil key)]
  rw [delete, dropped, hremove]
  cases inside.alter removing (c.row key) <;> rfl

/-- The entries with the directories on the way to a key's file. -/
def prepared (c : Cache) (inside : FileTree) (key : Text) : Except FileError FileTree :=
  if 0 < c.dirLevel then inside.makeAlong [] (c.row key).dropLast else .ok inside

theorem parent_pathFor (c : Cache) (key : Text) :
    (c.pathFor key).parent = c.directory.append (c.row key).dropLast := by
  have hparts : (c.directory.parts ++ c.row key).dropLast =
      c.directory.parts ++ (c.row key).dropLast :=
    List.dropLast_append_of_ne_nil (c.row_ne_nil key)
  rw [pathFor_eq, Path.parent, Path.append, Path.append]
  exact congrArg (fun parts => ({ c.directory with parts } : Path)) hparts

/-- A store collects, makes directories and writes inside the cache directory. -/
theorem store_graft (h : Anchored c.directory d t) (hup : c.StaysBelow) (inside : FileTree)
    (now draw : Int) (key value : Text) :
    c.store now draw (t.graft d inside) key value =
      match c.prepared (c.collected now draw false true inside) key with
      | .error _ => (t.graft d (c.collected now draw false true inside), false)
      | .ok made =>
        match made.alter (changingFile (c.fill now value)) (c.row key) with
        | .error _ => (t.graft d made, false)
        | .ok stored => (t.graft d stored, true) := by
  simp only [store, collect_graft h]
  generalize c.collected now draw false true inside = swept
  have hmake : (if 0 < c.dirLevel then (t.graft d swept).makeFolders (c.pathFor key).parent
      else .ok (t.graft d swept)) = t.graft d <$> c.prepared swept key := by
    rw [prepared]
    split
    · rw [parent_pathFor, h.makeFolders swept (up_not_mem_dropLast_row hup key)]
    · rfl
  rw [hmake]
  cases c.prepared swept key with
  | error e => rfl
  | ok made =>
    simp only [ok_map]
    rw [pathFor_eq, FileTree.write, h.locate_append made (up_not_mem_row hup key), ok_bind,
      h.alter_append made (c.row_ne_nil key)]
    cases made.alter (changingFile (c.fill now value)) (c.row key) <;> rfl

/-! ## What is kept up -/

/-- The entries of a cache directory: names are distinct, and all files are equally deep. -/
structure Kept (c : Cache) (inside : FileTree) : Prop where
  distinct : inside.Distinct
  filesAt : inside.FilesAt c.depth

namespace Kept

variable {inside : FileTree}

theorem empty (c : Cache) : c.Kept nil := ⟨trivial, .nil _⟩

theorem collected (h : c.Kept inside) (now draw : Int) (force expiredOnly : Bool) :
    c.Kept (c.collected now draw force expiredOnly inside) := by
  rw [Cache.collected]
  split
  · exact ⟨h.distinct.sweep expiredOnly now, h.filesAt.mono fun _ _ => kindAt_of_sweep h.distinct⟩
  · exact h

/-- A collection adds nothing. -/
theorem kindAt_of_collected (h : c.Kept inside) {now draw : Int} {force expiredOnly : Bool}
    {row : List Text} {kind : FileKind}
    (hkind : (c.collected now draw force expiredOnly inside).kindAt row = some kind) :
    inside.kindAt row = some kind := by
  rw [Cache.collected] at hkind
  split at hkind
  · exact kindAt_of_sweep h.distinct hkind
  · exact hkind

theorem dropped (h : c.Kept inside) (key : Text) : c.Kept (c.dropped inside key) := by
  rw [Cache.dropped]
  split
  · exact ⟨h.distinct.remove ‹_›, h.filesAt.remove ‹_›⟩
  · exact h

/-- A key's file is removed, and no other. -/
theorem kindAt_dropped (inside : FileTree) (key : Text) (row : List Text) {f : File} :
    (c.dropped inside key).kindAt row = some (.file f) ↔
      row ≠ c.row key ∧ inside.kindAt row = some (.file f) := by
  rw [Cache.dropped]
  cases halter : inside.alter removing (c.row key) with
  | ok removed =>
    rw [kindAt_remove halter]
    split <;> simp_all
  | error e =>
    -- Removing fails only where there is no file.
    have hnone : inside.kindAt (c.row key) ≠ some (.file f) := by
      intro hf
      obtain ⟨removed, hremoved⟩ := exists_remove hf
      rw [hremoved] at halter
      cases halter
    exact ⟨fun hf => ⟨fun hrow => hnone (hrow ▸ hf), hf⟩, fun hf => hf.2⟩

/-- Making the directories on the way to a file changes no file. -/
theorem prepared {made : FileTree} {key : Text} (h : c.Kept inside)
    (hmade : c.prepared inside key = .ok made) :
    c.Kept made ∧
      ∀ row f, made.kindAt row = some (.file f) ↔ inside.kindAt row = some (.file f) := by
  rw [Cache.prepared] at hmade
  split at hmade
  · have hlen : ([] : List Text).length + (c.row key).dropLast.length ≤ c.depth := by
      rw [length_dropLast_row, List.length_nil, Nat.zero_add]
    refine makeAlong_keeps (n := c.depth) (P := fun u => c.Kept u ∧
      ∀ row f, u.kindAt row = some (.file f) ↔ inside.kindAt row = some (.file f))
      (fun u u' names hu hnames halter => ?_) ⟨h, fun _ _ => .rfl⟩ hlen hmade
    obtain ⟨hkept, hsame⟩ := hu
    exact ⟨⟨hkept.distinct.makeFolder halter, hkept.filesAt.makeFolder hnames halter⟩,
      fun row f => (kindAt_makeFolder_file halter).trans (hsame row f)⟩
  · cases hmade
    exact ⟨h, fun _ _ => .rfl⟩

end Kept

/-! ## Storing -/

/-- The entries hold the text in its key's file, and the files that they held before at all other
rows. -/
structure Stored (c : Cache) (now : Int) (key value : Text) (before after : FileTree) : Prop where
  kept : c.Kept after
  own : ∃ f, after.kindAt (c.row key) = some (.file f) ∧
    f.content = encodeUtf8 value ∧ f.stamp = now + c.lifetime
  other {row : List Text} {f : File} : row ≠ c.row key →
    (after.kindAt row = some (.file f) ↔ before.kindAt row = some (.file f))

variable {inside : FileTree}

theorem Kept.write {stored : FileTree} {now : Int} {key value : Text} (h : c.Kept inside)
    (hwrite : inside.alter (changingFile (c.fill now value)) (c.row key) = .ok stored) :
    c.Stored now key value inside stored := by
  obtain ⟨old, -, hrows⟩ := kindAt_write hwrite
  refine ⟨⟨h.distinct.write hwrite, h.filesAt.write (c.length_row key) hwrite⟩, ?_, ?_⟩
  · exact ⟨c.fill now value old, by rw [hrows, if_pos rfl], rfl, rfl⟩
  · intro row f hrow
    rw [hrows, if_neg hrow]

/-- A store that fails changes no file, except for the collection before it. -/
theorem Kept.store (h : c.Kept inside) (hd : Anchored c.directory d t) (hup : c.StaysBelow)
    (now draw : Int) (key value : Text) :
    let swept := c.collected now draw false true inside
    (∃ stored, c.store now draw (t.graft d inside) key value = (t.graft d stored, true) ∧
      c.Stored now key value swept stored) ∨
    (∃ made, c.store now draw (t.graft d inside) key value = (t.graft d made, false) ∧
      c.Kept made ∧
        ∀ row f, made.kindAt row = some (.file f) ↔ swept.kindAt row = some (.file f)) := by
  intro swept
  have hswept : c.Kept swept := h.collected now draw false true
  rw [store_graft hd hup]
  cases hmade : c.prepared swept key with
  | error e => exact .inr ⟨swept, rfl, hswept, fun _ _ => .rfl⟩
  | ok made =>
    obtain ⟨hkept, hsame⟩ := hswept.prepared hmade
    simp only
    cases hwrite : made.alter (changingFile (c.fill now value)) (c.row key) with
    | error e => exact .inr ⟨made, rfl, hkept, hsame⟩
    | ok stored =>
      obtain ⟨hafter, hown, hother⟩ := hkept.write hwrite
      exact .inl ⟨stored, rfl, hafter, hown, fun hrow => (hother hrow).trans (hsame _ _)⟩

/-- A store succeeds when all directories on the way to the file are made by it. -/
theorem Kept.exists_store (h : c.Kept inside) (hd : Anchored c.directory d t) (hup : c.StaysBelow)
    (hdirs : 0 < c.dirLevel ∨ extensionParts c.extension = []) (now draw : Int)
    (key value : Text) :
    ∃ stored, c.store now draw (t.graft d inside) key value = (t.graft d stored, true) ∧
      c.Stored now key value (c.collected now draw false true inside) stored := by
  refine (h.store hd hup now draw key value).resolve_right ?_
  rintro ⟨left, hfail, -, -⟩
  rw [store_graft hd hup] at hfail
  have hswept : c.Kept (c.collected now draw false true inside) := h.collected now draw false true
  generalize c.collected now draw false true inside = swept at hfail hswept
  have hlen := c.length_dropLast_row key
  obtain ⟨made, hmade, hparent⟩ : ∃ made, c.prepared swept key = .ok made ∧
      made.kindAt (c.row key).dropLast = some .folder := by
    rw [Cache.prepared]
    split
    · exact hswept.filesAt.exists_makeAlong (by simp [hlen]) (kindAt_root swept)
        (up_not_mem_dropLast_row hup key)
    · have hnil : (c.row key).dropLast = [] := by
        rw [← List.length_eq_zero_iff, hlen, depth, hdirs.resolve_left ‹_›, List.length_nil]
        omega
      exact ⟨swept, rfl, by rw [hnil, kindAt_root]⟩
  obtain ⟨hkept, -⟩ := hswept.prepared hmade
  obtain ⟨stored, hstored⟩ :=
    hkept.filesAt.exists_write hlen hparent (c.fill now value)
      ((c.row key).getLast (c.row_ne_nil key))
  rw [List.dropLast_append_getLast] at hstored
  rw [hmade] at hfail
  simp [hstored] at hfail

end Cache

end Shorthand
