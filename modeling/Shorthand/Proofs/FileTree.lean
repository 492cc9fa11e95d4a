import Mathlib.Data.List.Basic
import Shorthand.Proofs.Agreement
import Shorthand.FileTree

/-!
# File trees

What the operations on a tree do to what stands at the ends of rows of names.

- `kindAt`: a file, a directory or nothing. `kindAt_alter`: what a change of one entry does to all
  rows, with `kindAt_write`, `kindAt_remove` and `kindAt_makeFolder` for the changes there are;
  `exists_alter`: when a change succeeds.
- `Distinct`: no directory holds two entries of one name. Every change keeps it up.
- `FilesAt n`: all files are `n` directories deep, and no directory is deeper. Then no file is in the
  way of a directory, and no directory in the way of a file (`FilesAt.exists_makeAlong`,
  `FilesAt.exists_write`).
-/

namespace Shorthand

namespace FileTree

/-! ## One directory -/

/-- A directory is empty, or has a first entry. -/
theorem cons_induction {motive : FileTree → Prop} (nil : motive nil)
    (cons : ∀ name e rest, motive rest → motive (cons name e rest)) (t : FileTree) : motive t := by
  induction t with
  | nil => exact nil
  | file name f rest ih => exact cons name (.file f) rest ih
  | folder name inside rest _ ih => exact cons name (.folder inside) rest ih

/-- What holds of a directory whenever it holds of the directories in it holds of all. -/
theorem find?_induction {motive : FileTree → Prop}
    (step : ∀ t, (∀ name inside, t.find? name = some (.folder inside) → motive inside) → motive t)
    (t : FileTree) : motive t := by
  refine step t ?_
  induction t with
  | nil => intro name inside h; cases h
  | file n f rest ih =>
    intro name inside h
    rw [find?] at h
    split at h
    · cases h
    · exact ih name inside h
  | folder n first rest ihfirst ih =>
    intro name inside h
    rw [find?] at h
    split at h
    · cases h
      exact step _ ihfirst
    · exact ih name inside h

theorem find?_cons (name : Text) (e : FileEntry) (rest : FileTree) (m : Text) :
    (cons name e rest).find? m = if name = m then some e else rest.find? m := by
  cases e <;> rfl

theorem put_cons (name : Text) (e : FileEntry) (rest : FileTree) (m : Text) (e' : FileEntry) :
    (cons name e rest).put m e' =
      if name = m then cons m e' rest else cons name e (rest.put m e') := by
  cases e <;> rfl

theorem erase_cons (name : Text) (e : FileEntry) (rest : FileTree) (m : Text) :
    (cons name e rest).erase m = if name = m then rest.erase m else cons name e (rest.erase m) := by
  cases e <;> rfl

@[simp] theorem find?_put (t : FileTree) (name : Text) (e : FileEntry) (m : Text) :
    (t.put name e).find? m = if name = m then some e else t.find? m := by
  induction t using cons_induction with
  | nil => simp [put, find?, find?_cons]
  | cons n e' rest ih =>
    by_cases hn : n = name
    · subst hn
      simp only [put_cons, if_true, find?_cons]
      split <;> rfl
    · rw [put_cons, if_neg hn, find?_cons, find?_cons, ih]
      by_cases hm : n = m
      · simp [hm, Ne.symm (hm ▸ hn)]
      · simp [hm]

@[simp] theorem find?_erase (t : FileTree) (name m : Text) :
    (t.erase name).find? m = if name = m then none else t.find? m := by
  induction t using cons_induction with
  | nil => simp [erase, find?]
  | cons n e rest ih =>
    by_cases hn : n = name
    · subst hn
      rw [erase_cons, if_pos rfl, ih, find?_cons]
      split <;> rfl
    · rw [erase_cons, if_neg hn, find?_cons, find?_cons, ih]
      by_cases hm : n = m
      · simp [hm, Ne.symm (hm ▸ hn)]
      · simp [hm]

theorem exists_find?_of_ne_nil {t : FileTree} (h : t ≠ nil) : ∃ name e, t.find? name = some e := by
  induction t using cons_induction with
  | nil => exact absurd rfl h
  | cons name e rest _ => exact ⟨name, e, by rw [find?_cons, if_pos rfl]⟩

/-- An entry put in its own place changes nothing. -/
theorem put_of_find? {t : FileTree} {name : Text} {e : FileEntry} (h : t.find? name = some e) :
    t.put name e = t := by
  induction t using cons_induction with
  | nil => cases h
  | cons n e' rest ih =>
    rw [find?_cons] at h
    rw [put_cons]
    split at h
    · cases h
      simp_all
    · rw [if_neg ‹_›, ih h]

@[simp] theorem put_put (t : FileTree) (name : Text) (e e' : FileEntry) :
    (t.put name e).put name e' = t.put name e' := by
  induction t using cons_induction with
  | nil => simp [put, put_cons]
  | cons n d rest ih =>
    by_cases hn : n = name
    · simp [put_cons, hn]
    · simp [put_cons, hn, ih]

/-- The directory with the entry of a name set to another, or to none. -/
def set (t : FileTree) (name : Text) : Option FileEntry → FileTree
  | some e => t.put name e
  | none => t.erase name

@[simp] theorem find?_set (t : FileTree) (name : Text) (e : Option FileEntry) (m : Text) :
    (t.set name e).find? m = if name = m then e else t.find? m := by
  cases e <;> simp [set]

/-! ## Rows of names -/

/-- The entry at the end of a row of names, if there is one. -/
def entryAt (t : FileTree) (row : List Text) : Option FileEntry :=
  match t.lookup row with
  | .ok e => some e
  | .error _ => none

end FileTree

/-- What stands at the end of a row of names. -/
inductive FileKind
  | file (f : File)
  | folder
  deriving DecidableEq, Repr

def FileEntry.kind : FileEntry → FileKind
  | file f => .file f
  | folder _ => .folder

/-- What stands at the end of a row of names below an entry. -/
def FileEntry.kindAt : FileEntry → List Text → Option FileKind
  | file f, [] => some (.file f)
  | file _, _ :: _ => none
  | folder inside, row => (inside.entryAt row).map kind

@[simp] theorem FileEntry.kindAt_nil (e : FileEntry) : e.kindAt [] = some e.kind := by
  cases e <;> rfl

@[simp] theorem FileEntry.kindAt_file_cons (f : File) (name : Text) (row : List Text) :
    (file f).kindAt (name :: row) = none := rfl

namespace FileTree

/-- What stands at the end of a row of names. -/
def kindAt (t : FileTree) (row : List Text) : Option FileKind :=
  (t.entryAt row).map FileEntry.kind

@[simp] theorem kindAt_folder (t : FileTree) (row : List Text) :
    (FileEntry.folder t).kindAt row = t.kindAt row := rfl

@[simp] theorem entryAt_root (t : FileTree) : t.entryAt [] = some (.folder t) := rfl

@[simp] theorem kindAt_root (t : FileTree) : t.kindAt [] = some .folder := rfl

theorem entryAt_eq_some {t : FileTree} {row : List Text} {e : FileEntry} :
    t.entryAt row = some e ↔ t.lookup row = .ok e := by
  rw [entryAt]
  cases t.lookup row <;> simp

theorem lookup_cons (t : FileTree) (name : Text) (row : List Text) :
    t.lookup (name :: row) =
      match t.find? name with
      | none => .error .noEntry
      | some (.folder inside) => inside.lookup row
      | some (.file f) => if row.isEmpty then .ok (.file f) else .error .notDirectory :=
  rfl

theorem entryAt_singleton (t : FileTree) (name : Text) : t.entryAt [name] = t.find? name := by
  rw [entryAt, lookup_cons]
  cases t.find? name with
  | none => rfl
  | some e => cases e <;> rfl

theorem entryAt_cons_folder {t inside : FileTree} {name : Text}
    (h : t.find? name = some (.folder inside)) (row : List Text) :
    t.entryAt (name :: row) = inside.entryAt row := by
  rw [entryAt, entryAt, lookup_cons, h]

theorem kindAt_cons (t : FileTree) (name : Text) (row : List Text) :
    t.kindAt (name :: row) = (t.find? name).bind (·.kindAt row) := by
  rw [kindAt, entryAt, lookup_cons]
  cases t.find? name with
  | none => rfl
  | some e =>
    cases e with
    | file f => cases row <;> rfl
    | folder inside => rfl

theorem kindAt_nil_cons (name : Text) (row : List Text) : nil.kindAt (name :: row) = none := rfl

/-- What stands below a row of names stands below the entry at its end. -/
theorem kindAt_append (t : FileTree) (row below : List Text) :
    t.kindAt (row ++ below) = (t.entryAt row).bind (·.kindAt below) := by
  induction row generalizing t with
  | nil => rfl
  | cons name row ih =>
    rw [List.cons_append, kindAt_cons, entryAt, lookup_cons]
    cases t.find? name with
    | none => rfl
    | some e =>
      cases e with
      | file f => cases row <;> cases below <;> rfl
      | folder inside => exact ih inside

theorem kindAt_eq_file {t : FileTree} {row : List Text} {f : File} :
    t.kindAt row = some (.file f) ↔ t.entryAt row = some (.file f) := by
  rw [kindAt]
  cases t.entryAt row with
  | none => simp
  | some e => cases e <;> simp [FileEntry.kind]

theorem kindAt_eq_folder {t : FileTree} {row : List Text} :
    t.kindAt row = some .folder ↔ ∃ inside, t.entryAt row = some (.folder inside) := by
  rw [kindAt]
  cases t.entryAt row with
  | none => simp
  | some e => cases e <;> simp [FileEntry.kind]

theorem kindAt_eq_none {t : FileTree} {row : List Text} :
    t.kindAt row = none ↔ t.entryAt row = none := by
  simp [kindAt]

/-- A file is read where a path leads to it. -/
theorem read_eq_ok {t : FileTree} {p : Path} {f : File} :
    t.read p = .ok f ↔ ∃ row, t.locate p = .ok row ∧ t.kindAt row = some (.file f) := by
  rw [read, entry]
  cases t.locate p with
  | error e => simp
  | ok row =>
    simp only [ok_bind, Except.ok.injEq, exists_eq_left', kindAt_eq_file, entryAt_eq_some]
    cases t.lookup row with
    | error e => simp
    | ok e => cases e <;> simp [pure, Except.pure]

/-- Whatever stands below a row stands below a directory. -/
theorem kindAt_of_append {t : FileTree} {row below : List Text} {kind : FileKind}
    (hne : below ≠ []) (h : t.kindAt (row ++ below) = some kind) : t.kindAt row = some .folder := by
  obtain ⟨name, below, rfl⟩ := List.exists_cons_of_ne_nil hne
  rw [kindAt_append] at h
  obtain ⟨e, he, hkind⟩ := Option.bind_eq_some_iff.1 h
  cases e with
  | file f => cases hkind
  | folder inside => exact kindAt_eq_folder.2 ⟨inside, he⟩

/-- Whatever stands somewhere stands in a directory. -/
theorem kindAt_parent {t : FileTree} {row : List Text} {name : Text} {kind : FileKind}
    (h : t.kindAt (row ++ [name]) = some kind) : t.kindAt row = some .folder :=
  kindAt_of_append (List.cons_ne_nil name []) h

/-! ## Changing one entry -/

section Alter

variable {change : Option FileEntry → Except FileError (Option FileEntry)}

theorem alter_singleton (t : FileTree) (name : Text) :
    t.alter change [name] = t.set name <$> change (t.find? name) := by
  rw [alter]
  cases change (t.find? name) with
  | error e => rfl
  | ok e => cases e <;> rfl

theorem alter_cons (t : FileTree) (name : Text) {row : List Text} (h : row ≠ []) :
    t.alter change (name :: row) =
      match t.find? name with
      | none => .error .noEntry
      | some (.file _) => .error .notDirectory
      | some (.folder inside) =>
        (fun new => t.put name (.folder new)) <$> inside.alter change row := by
  obtain ⟨m, below, rfl⟩ := List.exists_cons_of_ne_nil h
  rw [alter]
  · cases t.find? name with
    | none => rfl
    | some e => cases e <;> rfl
  · exact List.cons_ne_nil m below

/-- A change below a directory that succeeds is one in the entries of that directory. -/
theorem alter_cons_eq_ok {t t' : FileTree} {name : Text} {row : List Text} (hne : row ≠ [])
    (h : t.alter change (name :: row) = .ok t') :
    ∃ inside inside', t.find? name = some (.folder inside) ∧
      inside.alter change row = .ok inside' ∧ t' = t.put name (.folder inside') := by
  rw [alter_cons t name hne] at h
  split at h
  · cases h
  · cases h
  · obtain ⟨inside', hinside, rfl⟩ := map_eq_ok h
    exact ⟨_, inside', ‹_›, hinside, rfl⟩

/-- A change of one entry leaves all rows alone that do not lead through it. -/
theorem kindAt_alter {t t' : FileTree} {names : List Text} (h : t.alter change names = .ok t') :
    ∃ new, change (t.entryAt names) = .ok new ∧ ∀ row, t'.kindAt row =
      if names <+: row then new.bind (·.kindAt (row.drop names.length)) else t.kindAt row := by
  induction names generalizing t t' with
  | nil => cases h
  | cons name names ih =>
    by_cases hnil : names = []
    · subst hnil
      rw [alter_singleton] at h
      obtain ⟨new, hnew, rfl⟩ := map_eq_ok h
      refine ⟨new, by rw [entryAt_singleton, hnew], fun row => ?_⟩
      cases row with
      | nil => simp
      | cons m row =>
        rw [kindAt_cons, kindAt_cons, find?_set]
        by_cases hm : name = m <;> simp [hm]
    · obtain ⟨inside, inside', hfind, hinside, rfl⟩ := alter_cons_eq_ok hnil h
      obtain ⟨new, hnew, hrows⟩ := ih hinside
      refine ⟨new, by rw [entryAt_cons_folder hfind, hnew], fun row => ?_⟩
      cases row with
      | nil => simp
      | cons m row =>
        rw [kindAt_cons, kindAt_cons, find?_put]
        by_cases hm : name = m
        · subst hm
          simp [hrows, hfind]
        · simp [hm]

/-- A change succeeds when it does so on the entry and the directory of the entry exists. -/
theorem exists_alter {t : FileTree} {names : List Text} {name : Text} {new : Option FileEntry}
    (hparent : t.kindAt names = some .folder)
    (hnew : change (t.entryAt (names ++ [name])) = .ok new) :
    ∃ t', t.alter change (names ++ [name]) = .ok t' := by
  induction names generalizing t with
  | nil =>
    rw [List.nil_append, entryAt_singleton] at hnew
    exact ⟨t.set name new, by rw [List.nil_append, alter_singleton, hnew]; rfl⟩
  | cons m names ih =>
    rw [kindAt_cons] at hparent
    obtain ⟨e, hfind, he⟩ := Option.bind_eq_some_iff.1 hparent
    cases e with
    | file f => cases names <;> cases he
    | folder inside =>
      rw [List.cons_append, entryAt_cons_folder hfind] at hnew
      obtain ⟨inside', hinside⟩ := ih he hnew
      refine ⟨t.put m (.folder inside'), ?_⟩
      rw [List.cons_append, alter_cons t m (by simp), hfind]
      simp [hinside]

/-- A change that keeps what stands below the entry changes what stands at its row alone. -/
theorem kindAt_alter_self {t t' : FileTree} {names : List Text} {old new : Option FileEntry}
    (h : t.alter change names = .ok t') (hold : t.entryAt names = old) (hnew : change old = .ok new)
    (hbelow : ∀ name row,
      new.bind (·.kindAt (name :: row)) = old.bind (·.kindAt (name :: row))) (row : List Text) :
    t'.kindAt row = if row = names then new.map FileEntry.kind else t.kindAt row := by
  obtain ⟨new', hnew', hrows⟩ := kindAt_alter h
  subst hold
  rw [hnew, Except.ok.injEq] at hnew'
  subst hnew'
  rw [hrows]
  by_cases hpre : names <+: row
  · obtain ⟨below, rfl⟩ := hpre
    cases below with
    | nil => cases new <;> simp
    | cons name below => simp [kindAt_append, hbelow]
  · have hne : row ≠ names := by
      rintro rfl
      exact hpre (List.prefix_refl row)
    simp [hpre, hne]

end Alter

/-- Writing a file, which may be new, changes that file alone. -/
theorem kindAt_write {g : File → File} {t t' : FileTree} {names : List Text}
    (h : t.alter (changingFile g) names = .ok t') :
    ∃ old : File, (t.kindAt names = none ∧ old = {} ∨ t.kindAt names = some (.file old)) ∧
      ∀ row, t'.kindAt row = if row = names then some (.file (g old)) else t.kindAt row := by
  obtain ⟨new, hnew, -⟩ := kindAt_alter h
  cases hentry : t.entryAt names with
  | none =>
    rw [hentry] at hnew
    cases hnew
    refine ⟨{}, .inl ⟨kindAt_eq_none.2 hentry, rfl⟩, ?_⟩
    exact kindAt_alter_self h hentry rfl fun _ _ => rfl
  | some e =>
    rw [hentry] at hnew
    cases e with
    | folder inside => cases hnew
    | file f =>
      cases hnew
      refine ⟨f, .inr (kindAt_eq_file.2 hentry), ?_⟩
      exact kindAt_alter_self h hentry rfl fun _ _ => rfl

/-- A file that is there can be removed. -/
theorem exists_remove {t : FileTree} {names : List Text} {f : File}
    (h : t.kindAt names = some (.file f)) : ∃ t', t.alter removing names = .ok t' := by
  rcases List.eq_nil_or_concat names with rfl | ⟨parents, name, rfl⟩
  · cases h
  · rw [List.concat_eq_append] at h ⊢
    exact exists_alter (kindAt_parent h) (by rw [kindAt_eq_file.1 h]; rfl)

/-- Removing a file removes that file alone. -/
theorem kindAt_remove {t t' : FileTree} {names : List Text} (h : t.alter removing names = .ok t')
    (row : List Text) : t'.kindAt row = if row = names then none else t.kindAt row := by
  obtain ⟨new, hnew, -⟩ := kindAt_alter h
  cases hentry : t.entryAt names with
  | none => rw [hentry] at hnew; cases hnew
  | some e =>
    rw [hentry] at hnew
    cases e with
    | folder inside => cases hnew
    | file f =>
      cases hnew
      exact kindAt_alter_self h hentry rfl (fun _ _ => rfl) row

/-- Making a directory, which may be there, changes nothing else. -/
theorem kindAt_makeFolder {t t' : FileTree} {names : List Text}
    (h : t.alter makingFolder names = .ok t') (row : List Text) :
    t'.kindAt row = if row = names then some .folder else t.kindAt row := by
  obtain ⟨new, hnew, -⟩ := kindAt_alter h
  cases hentry : t.entryAt names with
  | none =>
    rw [hentry] at hnew
    cases hnew
    exact kindAt_alter_self h hentry rfl (fun _ _ => rfl) row
  | some e =>
    rw [hentry] at hnew
    cases e with
    | file f => cases hnew
    | folder inside =>
      cases hnew
      exact kindAt_alter_self h hentry rfl (fun _ _ => rfl) row

/-- Directories that are made take the place of no file. -/
theorem kindAt_makeFolder_file {t t' : FileTree} {names row : List Text} {f : File}
    (h : t.alter makingFolder names = .ok t') :
    t'.kindAt row = some (.file f) ↔ t.kindAt row = some (.file f) := by
  rw [kindAt_makeFolder h]
  split
  · subst row
    have hnot : t.kindAt names ≠ some (.file f) := by
      intro hfile
      obtain ⟨new, hnew, -⟩ := kindAt_alter h
      rw [kindAt_eq_file.1 hfile] at hnew
      cases hnew
    simp [hnot]
  · rfl

/-! ## Distinct names -/

/-- No directory holds two entries of one name. -/
def Distinct : FileTree → Prop
  | nil => True
  | file name _ rest => rest.find? name = none ∧ rest.Distinct
  | folder name inside rest => rest.find? name = none ∧ inside.Distinct ∧ rest.Distinct

end FileTree

/-- No directory below the entry holds two entries of one name. -/
def FileEntry.Distinct : FileEntry → Prop
  | file _ => True
  | folder inside => inside.Distinct

namespace FileTree

theorem distinct_cons {name : Text} {e : FileEntry} {rest : FileTree} :
    (cons name e rest).Distinct ↔ rest.find? name = none ∧ e.Distinct ∧ rest.Distinct := by
  cases e <;> simp [cons, Distinct, FileEntry.Distinct]

namespace Distinct

theorem find? {t : FileTree} {name : Text} {e : FileEntry} (h : t.Distinct)
    (hfind : t.find? name = some e) : e.Distinct := by
  induction t using cons_induction with
  | nil => cases hfind
  | cons n d rest ih =>
    obtain ⟨-, hd, hrest⟩ := distinct_cons.1 h
    rw [find?_cons] at hfind
    split at hfind
    · cases hfind
      exact hd
    · exact ih hrest hfind

/-- Names are distinct below every directory of the tree. -/
theorem entryAt {t : FileTree} {row : List Text} {e : FileEntry} (h : t.Distinct)
    (hentry : t.entryAt row = some e) : e.Distinct := by
  induction row generalizing t with
  | nil =>
    cases hentry
    exact h
  | cons name row ih =>
    rw [entryAt_eq_some, lookup_cons] at hentry
    cases hfind : t.find? name with
    | none => simp [hfind] at hentry
    | some e' =>
      have he' : e'.Distinct := h.find? hfind
      cases e' with
      | folder inside =>
        rw [hfind] at hentry
        exact ih (t := inside) he' (entryAt_eq_some.2 hentry)
      | file f =>
        rw [hfind] at hentry
        simp only at hentry
        split at hentry <;> cases hentry
        trivial

theorem put {t : FileTree} {name : Text} {e : FileEntry} (h : t.Distinct) (he : e.Distinct) :
    (t.put name e).Distinct := by
  induction t using cons_induction with
  | nil => exact distinct_cons.2 ⟨rfl, he, h⟩
  | cons n d rest ih =>
    obtain ⟨hn, hd, hrest⟩ := distinct_cons.1 h
    rw [put_cons]
    split
    · subst n
      exact distinct_cons.2 ⟨hn, he, hrest⟩
    · exact distinct_cons.2 ⟨by rw [find?_put, if_neg (Ne.symm ‹_›), hn], hd, ih hrest⟩

theorem erase {t : FileTree} {name : Text} (h : t.Distinct) : (t.erase name).Distinct := by
  induction t using cons_induction with
  | nil => exact h
  | cons n d rest ih =>
    obtain ⟨hn, hd, hrest⟩ := distinct_cons.1 h
    rw [erase_cons]
    split
    · exact ih hrest
    · exact distinct_cons.2 ⟨by rw [find?_erase, if_neg (Ne.symm ‹_›), hn], hd, ih hrest⟩

theorem set {t : FileTree} {name : Text} {new : Option FileEntry} (h : t.Distinct)
    (hnew : ∀ e ∈ new, e.Distinct) : (t.set name new).Distinct := by
  cases new with
  | none => exact h.erase
  | some e => exact h.put (hnew e rfl)

/-- A change that makes no doubles makes none in the tree. -/
theorem alter {change : Option FileEntry → Except FileError (Option FileEntry)} {t t' : FileTree}
    {names : List Text} (h : t.Distinct) (halter : t.alter change names = .ok t')
    (hchange : ∀ old new, (∀ e ∈ old, e.Distinct) → change old = .ok new → ∀ e ∈ new, e.Distinct) :
    t'.Distinct := by
  induction names generalizing t t' with
  | nil => cases halter
  | cons name names ih =>
    by_cases hnil : names = []
    · subst hnil
      rw [alter_singleton] at halter
      obtain ⟨new, hnew, rfl⟩ := map_eq_ok halter
      exact h.set (hchange _ new (fun e he => h.find? he) hnew)
    · obtain ⟨inside, inside', hfind, hinside, rfl⟩ := alter_cons_eq_ok hnil halter
      have hd : inside.Distinct := h.find? hfind
      exact h.put (e := .folder inside') (ih hd hinside)

theorem write {g : File → File} {t t' : FileTree} {names : List Text} (h : t.Distinct)
    (halter : t.alter (changingFile g) names = .ok t') : t'.Distinct := by
  refine h.alter halter fun old new _ hnew e he => ?_
  rcases old with _ | f | inside <;> cases hnew <;> cases he <;> trivial

theorem remove {t t' : FileTree} {names : List Text} (h : t.Distinct)
    (halter : t.alter removing names = .ok t') : t'.Distinct := by
  refine h.alter halter fun old new _ hnew e he => ?_
  rcases old with _ | f | inside <;> cases hnew
  cases he

theorem makeFolder {t t' : FileTree} {names : List Text} (h : t.Distinct)
    (halter : t.alter makingFolder names = .ok t') : t'.Distinct := by
  refine h.alter halter fun old new hold hnew e he => ?_
  rcases old with _ | f | inside <;> cases hnew <;> cases he
  · trivial
  · exact hold _ rfl

end Distinct

/-! ## Files of one depth -/

/-- All files are `n` directories deep, and no directory is deeper than that. -/
structure FilesAt (t : FileTree) (n : Nat) : Prop where
  file {row : List Text} {f : File} : t.kindAt row = some (.file f) → row.length = n + 1
  folder {row : List Text} : t.kindAt row = some .folder → row.length ≤ n

namespace FilesAt

theorem nil (n : Nat) : nil.FilesAt n where
  file {row f} h := by cases row <;> simp [kindAt_nil_cons] at h
  folder {row} h := by cases row <;> simp_all [kindAt_nil_cons]

theorem mono {t t' : FileTree} {n : Nat} (h : t.FilesAt n)
    (hsub : ∀ row kind, t'.kindAt row = some kind → t.kindAt row = some kind) : t'.FilesAt n where
  file hf := h.file (hsub _ _ hf)
  folder hf := h.folder (hsub _ _ hf)

theorem write {g : File → File} {t t' : FileTree} {names : List Text} {n : Nat} (h : t.FilesAt n)
    (hlen : names.length = n + 1) (halter : t.alter (changingFile g) names = .ok t') :
    t'.FilesAt n := by
  obtain ⟨old, -, hrows⟩ := kindAt_write halter
  constructor
  · intro row f hf
    rw [hrows] at hf
    split at hf
    · rw [‹row = names›, hlen]
    · exact h.file hf
  · intro row hf
    rw [hrows] at hf
    split at hf
    · cases hf
    · exact h.folder hf

theorem remove {t t' : FileTree} {names : List Text} {n : Nat} (h : t.FilesAt n)
    (halter : t.alter removing names = .ok t') : t'.FilesAt n := by
  refine h.mono fun row kind hk => ?_
  rw [kindAt_remove halter] at hk
  split at hk
  · cases hk
  · exact hk

theorem makeFolder {t t' : FileTree} {names : List Text} {n : Nat} (h : t.FilesAt n)
    (hlen : names.length ≤ n) (halter : t.alter makingFolder names = .ok t') : t'.FilesAt n := by
  constructor
  · intro row f hf
    exact h.file ((kindAt_makeFolder_file halter).1 hf)
  · intro row hf
    rw [kindAt_makeFolder halter] at hf
    split at hf
    · rw [‹row = names›]
      exact hlen
    · exact h.folder hf

/-- No directory is in the way of a file. -/
theorem exists_write {t : FileTree} {names : List Text} {n : Nat} (h : t.FilesAt n)
    (hlen : names.length = n) (hparent : t.kindAt names = some .folder) (g : File → File)
    (name : Text) : ∃ t', t.alter (changingFile g) (names ++ [name]) = .ok t' := by
  cases hentry : t.entryAt (names ++ [name]) with
  | none => exact exists_alter hparent (by rw [hentry]; rfl)
  | some e =>
    cases e with
    | file f => exact exists_alter hparent (by rw [hentry]; rfl)
    | folder inside =>
      have := h.folder (kindAt_eq_folder.2 ⟨inside, hentry⟩)
      simp only [List.length_append, List.length_singleton] at this
      omega

/-- No file is in the way of a directory. -/
theorem exists_makeFolder {t : FileTree} {names : List Text} {n : Nat} (h : t.FilesAt n)
    (hlen : names.length < n) (hparent : t.kindAt names = some .folder) (name : Text) :
    ∃ t', t.alter makingFolder (names ++ [name]) = .ok t' := by
  cases hentry : t.entryAt (names ++ [name]) with
  | none => exact exists_alter hparent (by rw [hentry]; rfl)
  | some e =>
    cases e with
    | folder inside => exact exists_alter hparent (by rw [hentry]; rfl)
    | file f =>
      have := h.file (kindAt_eq_file.2 hentry)
      simp only [List.length_append, List.length_singleton] at this
      omega

end FilesAt

/-! ## Rows of directories -/

/-- What making one directory keeps up, making a row of them keeps up. -/
theorem makeAlong_keeps {P : FileTree → Prop} {n : Nat}
    (hP : ∀ t t' names, P t → names.length ≤ n → t.alter makingFolder names = .ok t' → P t')
    {t t' : FileTree} {here parts : List Text} (h : P t) (hlen : here.length + parts.length ≤ n)
    (hmake : t.makeAlong here parts = .ok t') : P t' := by
  induction parts generalizing t here with
  | nil =>
    cases hmake
    exact h
  | cons part parts ih =>
    rw [List.length_cons] at hlen
    rw [makeAlong] at hmake
    split at hmake
    · split at hmake
      · cases hmake
      · refine ih h ?_ hmake
        rw [List.length_dropLast]
        omega
    · obtain ⟨made, hmade, hmake⟩ := bind_eq_ok hmake
      have hrow : (here ++ [part]).length = here.length + 1 := by simp
      exact ih (hP _ _ _ h (by omega) hmade) (by omega) hmake

/-- Where no file is in the way, a row of directories can be made. -/
theorem FilesAt.exists_makeAlong {t : FileTree} {here parts : List Text} {n : Nat}
    (h : t.FilesAt n) (hlen : here.length + parts.length ≤ n)
    (hparent : t.kindAt here = some .folder) (hup : Path.up ∉ parts) :
    ∃ t', t.makeAlong here parts = .ok t' ∧ t'.kindAt (here ++ parts) = some .folder := by
  induction parts generalizing t here with
  | nil => exact ⟨t, rfl, by rwa [List.append_nil]⟩
  | cons part parts ih =>
    rw [List.length_cons] at hlen
    rw [List.mem_cons, not_or] at hup
    have hrow : (here ++ [part]).length = here.length + 1 := by simp
    obtain ⟨made, hmade⟩ := h.exists_makeFolder (by omega) hparent part
    have hpart : made.kindAt (here ++ [part]) = some .folder := by
      rw [kindAt_makeFolder hmade, if_pos rfl]
    obtain ⟨t', hmake, hkind⟩ := ih (h.makeFolder (by omega) hmade) (by omega) hpart hup.2
    refine ⟨t', ?_, by simpa using hkind⟩
    rw [makeAlong, if_neg (Ne.symm hup.1), hmade]
    exact hmake

end FileTree

end Shorthand
