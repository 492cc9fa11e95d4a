import Shorthand.Proofs.FileTree

/-!
# Subtrees

A directory of a tree is a tree of its own: what is done below it is done inside it alone.

- `graft`: the tree with all entries of one directory replaced.
- `alter_append`: a change below a directory is a change of its entries.
- `Anchored p d t`: the path `p` leads to the directory at the row `d`, which is empty. Then it
  leads there whatever the directory holds (`Anchored.locate_graft`).
- `Anchored.makeFolders`: directories below the anchored one are made inside it.
-/

namespace Shorthand

namespace FileTree

/-- The tree with all entries of the directory at the end of a row replaced. -/
def graft (t : FileTree) (row : List Text) (new : FileTree) : FileTree :=
  match row with
  | [] => new
  | name :: row =>
    match t.find? name with
    | some (.folder inside) => t.put name (.folder (inside.graft row new))
    | _ => t

theorem graft_cons {t inside : FileTree} {name : Text} (h : t.find? name = some (.folder inside))
    (row : List Text) (new : FileTree) :
    t.graft (name :: row) new = t.put name (.folder (inside.graft row new)) := by
  rw [graft, h]

/-- A row of names that leads to a directory leads first to one that holds the rest of it. -/
theorem entryAt_cons_eq_folder {t inside : FileTree} {name : Text} {row : List Text}
    (h : t.entryAt (name :: row) = some (.folder inside)) :
    ∃ first, t.find? name = some (.folder first) ∧ first.entryAt row = some (.folder inside) := by
  rw [entryAt_eq_some, lookup_cons] at h
  split at h
  · cases h
  · exact ⟨_, ‹_›, entryAt_eq_some.2 h⟩
  · split at h <;> cases h

section Graft

variable {t inside : FileTree} {row : List Text}

theorem graft_self (h : t.entryAt row = some (.folder inside)) : t.graft row inside = t := by
  induction row generalizing t with
  | nil =>
    cases h
    rfl
  | cons name row ih =>
    obtain ⟨first, hfirst, hrest⟩ := entryAt_cons_eq_folder h
    rw [graft_cons hfirst, ih hrest, put_of_find? hfirst]

theorem entryAt_graft (h : t.entryAt row = some (.folder inside)) (new : FileTree) :
    (t.graft row new).entryAt row = some (.folder new) := by
  induction row generalizing t with
  | nil => rfl
  | cons name row ih =>
    obtain ⟨first, hfirst, hrest⟩ := entryAt_cons_eq_folder h
    have hput : (t.graft (name :: row) new).find? name = some (.folder (first.graft row new)) := by
      rw [graft_cons hfirst, find?_put, if_pos rfl]
    rw [entryAt_cons_folder hput, ih hrest]

theorem graft_graft (h : t.entryAt row = some (.folder inside)) (new new' : FileTree) :
    (t.graft row new).graft row new' = t.graft row new' := by
  induction row generalizing t with
  | nil => rfl
  | cons name row ih =>
    obtain ⟨first, hfirst, hrest⟩ := entryAt_cons_eq_folder h
    have hput : (t.graft (name :: row) new).find? name = some (.folder (first.graft row new)) := by
      rw [graft_cons hfirst, find?_put, if_pos rfl]
    rw [graft_cons hput, ih hrest, graft_cons hfirst, put_put, graft_cons hfirst]

/-- What stands below the directory stands in its entries. -/
theorem kindAt_below (h : t.entryAt row = some (.folder inside)) (below : List Text) :
    t.kindAt (row ++ below) = inside.kindAt below := by
  rw [kindAt_append, h]
  rfl

/-- What stands below the directory is replaced. -/
theorem kindAt_graft_append (h : t.entryAt row = some (.folder inside)) (new : FileTree)
    (below : List Text) : (t.graft row new).kindAt (row ++ below) = new.kindAt below :=
  kindAt_below (entryAt_graft h new) below

/-- Nothing else is replaced. -/
theorem kindAt_graft_outside (h : t.entryAt row = some (.folder inside)) (new : FileTree)
    {names : List Text} (hnames : ¬ row <+: names) :
    (t.graft row new).kindAt names = t.kindAt names := by
  induction row generalizing t names with
  | nil => exact absurd List.nil_prefix hnames
  | cons m row ih =>
    obtain ⟨first, hfirst, hrest⟩ := entryAt_cons_eq_folder h
    cases names with
    | nil => rfl
    | cons name names =>
      rw [graft_cons hfirst, kindAt_cons, kindAt_cons, find?_put]
      by_cases hm : m = name
      · subst hm
        rw [List.cons_prefix_cons, not_and] at hnames
        rw [if_pos rfl, hfirst]
        exact ih hrest (hnames rfl)
      · rw [if_neg hm]

/-- A change below a directory is a change of its entries. -/
theorem alter_append {change : Option FileEntry → Except FileError (Option FileEntry)}
    (h : t.entryAt row = some (.folder inside)) {below : List Text} (hne : below ≠ []) :
    t.alter change (row ++ below) = t.graft row <$> inside.alter change below := by
  induction row generalizing t with
  | nil =>
    cases h
    show inside.alter change below = (fun new => new) <$> inside.alter change below
    cases inside.alter change below <;> rfl
  | cons name row ih =>
    obtain ⟨first, hfirst, hrest⟩ := entryAt_cons_eq_folder h
    rw [List.cons_append, alter_cons t name (by simp [hne]), hfirst]
    simp only [ih hrest]
    cases inside.alter change below with
    | error e => rfl
    | ok new => rw [ok_map, ok_map, ok_map, graft_cons hfirst]

/-- Changing the entries of a directory replaces them. -/
theorem alter_changingFolder {change : FileTree → FileTree} (hne : row ≠ [])
    (h : t.entryAt row = some (.folder inside)) :
    t.alter (changingFolder change) row = .ok (t.graft row (change inside)) := by
  induction row generalizing t with
  | nil => exact absurd rfl hne
  | cons name row ih =>
    obtain ⟨first, hfirst, hrest⟩ := entryAt_cons_eq_folder h
    cases row with
    | nil =>
      cases hrest
      rw [alter_singleton, hfirst, graft_cons hfirst]
      rfl
    | cons m row =>
      rw [alter_cons t name (List.cons_ne_nil m row), hfirst, graft_cons hfirst]
      simp [ih (List.cons_ne_nil m row) hrest]

end Graft

/-! ## Paths -/

theorem follow_append (t : FileTree) (here parts more : List Text) :
    t.follow here (parts ++ more) = t.follow here parts >>= fun row => t.follow row more := by
  induction parts generalizing here with
  | nil => rfl
  | cons part parts ih =>
    rw [List.cons_append, follow, follow]
    split
    · split
      · rfl
      · rfl
      · split
        · rfl
        · exact ih _
    · exact ih _

/-- Parts that do not lead upwards are followed one after the other. -/
theorem follow_of_not_mem {parts : List Text} (h : Path.up ∉ parts) (t : FileTree)
    (here : List Text) : t.follow here parts = .ok (here ++ parts) := by
  induction parts generalizing here with
  | nil => rw [follow, List.append_nil]
  | cons part parts ih =>
    rw [List.mem_cons, not_or] at h
    rw [follow, if_neg (Ne.symm h.1), ih h.2, List.append_assoc, List.singleton_append]

/-- The way upwards leads through directories. -/
theorem follow_up_eq_ok {t : FileTree} {here parts row : List Text}
    (h : t.follow here (Path.up :: parts) = .ok row) :
    t.kindAt here = some .folder ∧ here ≠ [] ∧ t.follow here.dropLast parts = .ok row := by
  rw [follow, if_pos rfl] at h
  split at h
  · cases h
  · cases h
  · split at h
    · cases h
    · refine ⟨kindAt_eq_folder.2 ⟨_, entryAt_eq_some.2 ‹_›⟩, ?_, h⟩
      simpa using ‹¬here.isEmpty = true›

/-- A path leads to the same row in a tree that has the directories of the first. -/
theorem follow_mono {t t' : FileTree} {here parts row : List Text}
    (hsub : ∀ names, t.kindAt names = some .folder → t'.kindAt names = some .folder)
    (h : t.follow here parts = .ok row) : t'.follow here parts = .ok row := by
  induction parts generalizing here with
  | nil => exact h
  | cons part parts ih =>
    by_cases hup : part = Path.up
    · subst hup
      obtain ⟨hkind, hne, hrest⟩ := follow_up_eq_ok h
      obtain ⟨inside, hinside⟩ := kindAt_eq_folder.1 (hsub _ hkind)
      rw [follow, if_pos rfl, entryAt_eq_some.1 hinside]
      simpa [hne] using ih hrest
    · rw [follow, if_neg hup] at h ⊢
      exact ih h

theorem locate_mono {t t' : FileTree} {p : Path} {row : List Text}
    (hsub : ∀ names, t.kindAt names = some .folder → t'.kindAt names = some .folder)
    (h : t.locate p = .ok row) : t'.locate p = .ok row := by
  unfold locate at h ⊢
  split at h
  · rw [if_pos ‹_›]
    exact follow_mono hsub h
  · cases h

/-- The entries of a directory are replaced where a path leads to it. -/
theorem updateFolder_eq {t inside : FileTree} {p : Path} {d : List Text}
    (hd : t.locate p = .ok d) (h : t.entryAt d = some (.folder inside))
    (change : FileTree → FileTree) :
    t.updateFolder p change = .ok (t.graft d (change inside)) := by
  rw [updateFolder, hd, ok_bind]
  cases d with
  | nil =>
    cases h
    rfl
  | cons name names => exact alter_changingFolder (List.cons_ne_nil name names) h

/-- Whatever stands at a row stands in a directory. -/
theorem kindAt_dropLast {t : FileTree} {row : List Text} {kind : FileKind}
    (h : t.kindAt row = some kind) : t.kindAt row.dropLast = some .folder := by
  rcases List.eq_nil_or_concat row with rfl | ⟨names, name, rfl⟩
  · rfl
  · rw [List.concat_eq_append] at h ⊢
    rw [List.dropLast_concat]
    exact kindAt_parent h

/-- A path that leads to a directory starts at one. -/
theorem kindAt_of_follow {t : FileTree} {here parts row : List Text}
    (h : t.follow here parts = .ok row) (hrow : t.kindAt row = some .folder) :
    t.kindAt here = some .folder := by
  induction parts generalizing here with
  | nil =>
    cases h
    exact hrow
  | cons part parts ih =>
    by_cases hup : part = Path.up
    · subst hup
      exact (follow_up_eq_ok h).1
    · rw [follow, if_neg hup] at h
      simpa using kindAt_dropLast (ih h)

/-- Making a directory that is there changes nothing. -/
theorem makeFolder_of_kindAt {t : FileTree} {row : List Text} (hne : row ≠ [])
    (h : t.kindAt row = some .folder) : t.alter makingFolder row = .ok t := by
  obtain ⟨names, name, rfl⟩ := (List.eq_nil_or_concat row).resolve_left hne
  rw [List.concat_eq_append] at h ⊢
  rw [kindAt_append] at h
  obtain ⟨e, he, hkind⟩ := Option.bind_eq_some_iff.1 h
  cases e with
  | file f => cases hkind
  | folder inside =>
    obtain ⟨child, hchild⟩ := kindAt_eq_folder.1 hkind
    rw [entryAt_singleton] at hchild
    rw [alter_append he (by simp), alter_singleton, hchild]
    show Except.ok (t.graft names (inside.put name (.folder child))) = .ok t
    rw [put_of_find? hchild, graft_self he]

/-- Along a path whose directories are there, none is made. -/
theorem makeAlong_of_follow {t : FileTree} {here parts row : List Text}
    (h : t.follow here parts = .ok row) (hrow : t.kindAt row = some .folder) (more : List Text) :
    t.makeAlong here (parts ++ more) = t.makeAlong row more := by
  induction parts generalizing here with
  | nil =>
    cases h
    rfl
  | cons part parts ih =>
    rw [List.cons_append, makeAlong]
    by_cases hup : part = Path.up
    · subst hup
      obtain ⟨-, hne, hrest⟩ := follow_up_eq_ok h
      rw [if_pos rfl, if_neg (by simpa using hne)]
      exact ih hrest
    · rw [follow, if_neg hup] at h
      rw [if_neg hup, makeFolder_of_kindAt (by simp) (kindAt_of_follow h hrow)]
      exact ih h

/-- Directories below a directory are made inside it. -/
theorem makeAlong_append {t inside : FileTree} {row parts : List Text} (hup : Path.up ∉ parts)
    (h : t.entryAt row = some (.folder inside)) (below : List Text) :
    t.makeAlong (row ++ below) parts = t.graft row <$> inside.makeAlong below parts := by
  induction parts generalizing t inside below with
  | nil =>
    rw [makeAlong, makeAlong, ok_map, graft_self h]
  | cons part parts ih =>
    rw [List.mem_cons, not_or] at hup
    rw [makeAlong, makeAlong, if_neg (Ne.symm hup.1), if_neg (Ne.symm hup.1), List.append_assoc,
      alter_append h (by simp)]
    cases inside.alter makingFolder (below ++ [part]) with
    | error e => rfl
    | ok new =>
      rw [ok_map, ok_bind, ok_bind, ih hup.2 (entryAt_graft h new)]
      cases new.makeAlong (below ++ [part]) parts with
      | error e => rfl
      | ok made => rw [ok_map, ok_map, graft_graft h]

/-! ## Anchored directories -/

/-- The path leads to the directory at the row `d`, which is empty. -/
structure Anchored (p : Path) (d : List Text) (t : FileTree) : Prop where
  locate : t.locate p = .ok d
  entry : t.entryAt d = some (.folder nil)

theorem exists_anchored {p : Path} {t : FileTree} (h : t.entry p = .ok (.folder nil)) :
    ∃ d, Anchored p d t := by
  obtain ⟨d, hd, hentry⟩ := bind_eq_ok h
  exact ⟨d, hd, entryAt_eq_some.2 hentry⟩

namespace Anchored

variable {p : Path} {d : List Text} {t : FileTree}

theorem root (h : Anchored p d t) : p.root.isEmpty = true := by
  have hlocate := h.locate
  unfold FileTree.locate at hlocate
  split at hlocate
  · assumption
  · cases hlocate

theorem follow (h : Anchored p d t) : t.follow [] p.parts = .ok d := by
  rw [← h.locate, FileTree.locate, if_pos h.root]

/-- The directories of the tree are there whatever the anchored directory holds: none of them is
below it. -/
theorem kindAt_graft (h : Anchored p d t) (inside : FileTree) {names : List Text}
    (hnames : t.kindAt names = some .folder) : (t.graft d inside).kindAt names = some .folder := by
  by_cases hd : d <+: names
  · obtain ⟨below, rfl⟩ := hd
    rw [kindAt_below h.entry] at hnames
    rw [kindAt_graft_append h.entry]
    cases below with
    | nil => rfl
    | cons name below => cases hnames
  · rwa [kindAt_graft_outside h.entry inside hd]

theorem locate_graft (h : Anchored p d t) (inside : FileTree) :
    (t.graft d inside).locate p = .ok d :=
  locate_mono (fun _ => h.kindAt_graft inside) h.locate

theorem follow_graft (h : Anchored p d t) (inside : FileTree) :
    (t.graft d inside).follow [] p.parts = .ok d :=
  follow_mono (fun _ => h.kindAt_graft inside) h.follow

theorem entryAt_graft (h : Anchored p d t) (inside : FileTree) :
    (t.graft d inside).entryAt d = some (.folder inside) :=
  FileTree.entryAt_graft h.entry inside

theorem graft_graft (h : Anchored p d t) (inside new : FileTree) :
    (t.graft d inside).graft d new = t.graft d new :=
  FileTree.graft_graft h.entry inside new

/-- Parts behind the path lead on from the anchored directory. -/
theorem locate_append (h : Anchored p d t) (inside : FileTree) {parts : List Text}
    (hup : Path.up ∉ parts) : (t.graft d inside).locate (p.append parts) = .ok (d ++ parts) := by
  rw [FileTree.locate, Path.append, if_pos h.root]
  show (t.graft d inside).follow [] (p.parts ++ parts) = _
  rw [follow_append, h.follow_graft inside, ok_bind, follow_of_not_mem hup]

/-- A change below the anchored directory is a change of its entries. -/
theorem alter_append (h : Anchored p d t) (inside : FileTree) {parts : List Text}
    (hne : parts ≠ []) (change : Option FileEntry → Except FileError (Option FileEntry)) :
    (t.graft d inside).alter change (d ++ parts) = t.graft d <$> inside.alter change parts := by
  rw [FileTree.alter_append (h.entryAt_graft inside) hne]
  cases inside.alter change parts with
  | error e => rfl
  | ok new => rw [ok_map, ok_map, h.graft_graft]

theorem makeFolders (h : Anchored p d t) (inside : FileTree) {parts : List Text}
    (hup : Path.up ∉ parts) :
    (t.graft d inside).makeFolders (p.append parts) = t.graft d <$> inside.makeAlong [] parts := by
  have hd : (t.graft d inside).kindAt d = some .folder :=
    kindAt_eq_folder.2 ⟨inside, h.entryAt_graft inside⟩
  rw [FileTree.makeFolders, Path.append, if_pos h.root]
  show (t.graft d inside).makeAlong [] (p.parts ++ parts) = _
  rw [makeAlong_of_follow (h.follow_graft inside) hd]
  have happend := makeAlong_append hup (h.entryAt_graft inside) []
  rw [List.append_nil] at happend
  rw [happend]
  cases inside.makeAlong [] parts with
  | error e => rfl
  | ok made => rw [ok_map, ok_map, h.graft_graft]

end Anchored

end FileTree

end Shorthand
