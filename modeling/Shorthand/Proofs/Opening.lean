import Shorthand.Opening
import Shorthand.Proofs.Subtree

/-!
# Opening files

Which paths the system takes, and what is opened by them before and after a file is written.

- `FileTree.Takes`: the system takes the path. `opening_eq_ok`, `opening_eq_fault`: how an operation
  by way of a path ends. `testing_eq_error`: which questions about a path cannot be asked.
- `FileTree.bytes?`, `text?`: the file that is opened by a path, as bytes and as text.
  `FileTree.isWritable`: a file can be opened for writing.
- `FileTree.exists_row_of_write`: what a write changes.
- `FileTree.SameBut P`: two trees have the same directories, and the same files but at the rows
  `P`. Paths lead to the same rows in both (`SameBut.locate_eq_ok`), and are opened alike
  (`SameBut.toOption_openRead`, `SameBut.isWritable_eq`).
-/

namespace Shorthand

namespace FileTree

variable {α : Type} {t t' t'' : FileTree} {p q : Path}

/-! ## Paths that the system takes -/

/-- The system takes the path: it has no NUL and is not refused for its length. -/
def Takes (t : FileTree) (p : Path) : Prop :=
  p.hasNull = false ∧ t.isTooLong p = false

section

variable {result : Except FileError α}

theorem opening_of_null (h : p.hasNull = true) (result : Except FileError α) :
    t.opening p result = .error (.fault .nullInPath) := by
  rw [opening, if_pos h]

/-- An operation is done when the system takes the path and the tree lets it be done. -/
theorem opening_eq_ok {a : α} : t.opening p result = .ok a ↔ t.Takes p ∧ result = .ok a := by
  constructor
  · intro h
    unfold opening at h
    split at h
    · cases h
    · split at h
      · cases h
      · rename_i hnull hlong
        refine ⟨⟨by simpa using hnull, by simpa using hlong⟩, ?_⟩
        cases result with
        | error e => cases h
        | ok b => exact congrArg Except.ok (Except.ok.inj h)
  · rintro ⟨⟨hnull, hlong⟩, rfl⟩
    rw [opening, if_neg (by simp [hnull]), if_neg (by simp [hlong])]
    rfl

/-- Only the character NUL is a fault. -/
theorem opening_eq_fault {fault : Fault} :
    t.opening p result = .error (.fault fault) ↔ p.hasNull = true ∧ fault = .nullInPath := by
  constructor
  · intro h
    unfold opening at h
    split at h
    · cases h
      exact ⟨‹_›, rfl⟩
    · split at h
      · cases h
      · cases result <;> cases h
  · rintro ⟨hnull, rfl⟩
    exact opening_of_null hnull result

theorem hasNull_of_opening_eq_file {e : FileError} (h : t.opening p result = .error (.file e)) :
    p.hasNull = false := by
  by_contra hnull
  rw [opening_of_null (by simpa using hnull)] at h
  cases h

end

theorem openRead_eq_ok {f : File} : t.openRead p = .ok f ↔ t.Takes p ∧ t.read p = .ok f :=
  opening_eq_ok

theorem openWrite_eq_ok {change : File → File} :
    t.openWrite p change = .ok t' ↔ t.Takes p ∧ t.write p change = .ok t' :=
  opening_eq_ok

theorem isFolder_iff : t.isFolder p = true ↔
    ∃ row, t.locate p = .ok row ∧ t.kindAt row = some .folder := by
  rw [isFolder, entry]
  cases t.locate p with
  | error e => simp
  | ok row =>
    simp only [ok_bind, Except.ok.injEq, exists_eq_left', kindAt_eq_folder, entryAt_eq_some]
    cases t.lookup row with
    | error e => simp
    | ok e => cases e <;> simp

/-! ## What is opened -/

/-- The bytes of the file that is opened by a path. -/
def bytes? (t : FileTree) (p : Path) : Option (List UInt8) :=
  (t.openRead p).toOption.map (·.content)

/-- The text of the file that is opened by a path. -/
def text? (t : FileTree) (p : Path) : Option Text :=
  (t.openRead p).toOption.bind File.text?

/-- A file can be opened for writing by a path. -/
def isWritable (t : FileTree) (p : Path) : Bool :=
  (t.openWrite p id).isOk

theorem text?_eq_some {text : Text} :
    t.text? p = some text ↔ ∃ f, t.openRead p = .ok f ∧ f.text? = some text := by
  simp only [text?, Option.bind_eq_some_iff, toOption_eq_some]

theorem bytes?_of_openRead {f : File} (h : t.openRead p = .ok f) : t.bytes? p = some f.content := by
  rw [bytes?, h]
  rfl

/-! ## Writing -/

/-- A write changes what stands at one row, where no directory stood. -/
theorem exists_row_of_write {change : File → File} (h : t.write p change = .ok t') :
    ∃ row old, t.locate p = .ok row ∧
      (t.kindAt row = none ∧ old = {} ∨ t.kindAt row = some (.file old)) ∧
      ∀ other, t'.kindAt other =
        if other = row then some (.file (change old)) else t.kindAt other := by
  obtain ⟨row, hrow, halter⟩ := bind_eq_ok h
  obtain ⟨old, hold, hkind⟩ := kindAt_write halter
  exact ⟨row, old, hrow, hold, hkind⟩

/-- A file can be written where a directory has room for it. -/
theorem exists_write_of_row {row : List Text} (hrow : t.locate p = .ok row)
    (hnot : t.kindAt row ≠ some .folder) (hparent : t.kindAt row.dropLast = some .folder)
    (change : File → File) : ∃ t', t.write p change = .ok t' := by
  rcases List.eq_nil_or_concat row with rfl | ⟨names, name, rfl⟩
  · exact absurd (kindAt_root t) hnot
  · rw [List.concat_eq_append] at hrow hnot hparent
    rw [List.dropLast_concat] at hparent
    rw [FileTree.write, hrow, ok_bind]
    cases hentry : t.entryAt (names ++ [name]) with
    | none => exact exists_alter hparent (by rw [hentry]; rfl)
    | some e =>
      cases e with
      | file f => exact exists_alter hparent (by rw [hentry]; rfl)
      | folder inside => exact absurd (kindAt_eq_folder.2 ⟨inside, hentry⟩) hnot

/-! ## Trees that differ in some files -/

/-- The trees have the same directories, and the same files but at some rows. -/
structure SameBut (P : List Text → Prop) (t t' : FileTree) : Prop where
  folder {row : List Text} : t'.kindAt row = some .folder ↔ t.kindAt row = some .folder
  other {row : List Text} : ¬ P row → t'.kindAt row = t.kindAt row

namespace SameBut

variable {P Q : List Text → Prop}

theorem refl (P : List Text → Prop) (t : FileTree) : SameBut P t t :=
  ⟨.rfl, fun _ => rfl⟩

theorem trans (h : SameBut P t t') (h' : SameBut P t' t'') : SameBut P t t'' :=
  ⟨h'.folder.trans h.folder, fun hrow => (h'.other hrow).trans (h.other hrow)⟩

theorem mono (h : SameBut P t t') (hsub : ∀ row, P row → Q row) : SameBut Q t t' :=
  ⟨h.folder, fun hrow => h.other fun hp => hrow (hsub _ hp)⟩

/-- A write changes one file. -/
theorem of_write {change : File → File} (h : t.write p change = .ok t') :
    SameBut (t.locate p = .ok ·) t t' := by
  obtain ⟨row, old, hrow, hold, hkind⟩ := exists_row_of_write h
  have hfolder : t.kindAt row ≠ some .folder := by
    rcases hold with ⟨hnone, -⟩ | hfile
    · rw [hnone]; simp
    · rw [hfile]; simp
  refine ⟨fun {other} => ?_, fun {other} hother => ?_⟩
  · rw [hkind]
    split
    · subst other
      simp [hfolder]
    · rfl
  · rw [hkind, if_neg]
    rintro rfl
    exact hother hrow

theorem locate_eq_ok (h : SameBut P t t') {row : List Text} :
    t'.locate p = .ok row ↔ t.locate p = .ok row :=
  ⟨locate_mono fun _ => h.folder.1, locate_mono fun _ => h.folder.2⟩

/-- Which paths the system takes depends on the directories alone. -/
theorem takes_iff (h : SameBut P t t') : t'.Takes p ↔ t.Takes p := by
  have hfolder : t'.isFolder p.beforeLongName = t.isFolder p.beforeLongName := by
    rw [Bool.eq_iff_iff, isFolder_iff, isFolder_iff]
    simp only [h.locate_eq_ok, h.folder]
  rw [Takes, Takes, isTooLong, isTooLong, hfolder]

section

variable (h : SameBut P t t') (hp : ∀ row, t.locate p = .ok row → ¬ P row)
include h hp

theorem read_eq_ok {f : File} : t'.read p = .ok f ↔ t.read p = .ok f := by
  rw [FileTree.read_eq_ok, FileTree.read_eq_ok]
  refine exists_congr fun row => ?_
  rw [h.locate_eq_ok]
  exact and_congr_right fun hrow => by rw [h.other (hp row hrow)]

theorem toOption_read : (t'.read p).toOption = (t.read p).toOption := by
  refine Option.ext fun f => ?_
  simp only [toOption_eq_some, h.read_eq_ok hp]

theorem toOption_openRead : (t'.openRead p).toOption = (t.openRead p).toOption := by
  refine Option.ext fun f => ?_
  simp only [toOption_eq_some, openRead_eq_ok, h.takes_iff, h.read_eq_ok hp]

theorem bytes?_eq : t'.bytes? p = t.bytes? p := by
  rw [bytes?, bytes?, h.toOption_openRead hp]

theorem text?_eq : t'.text? p = t.text? p := by
  rw [text?, text?, h.toOption_openRead hp]

end

end SameBut

/-- What is written is opened. -/
theorem openRead_of_openWrite {change : File → File} (h : t.openWrite p change = .ok t') :
    ∃ old, t'.openRead p = .ok (change old) := by
  obtain ⟨htakes, hwrite⟩ := openWrite_eq_ok.1 h
  have hsame := SameBut.of_write hwrite
  obtain ⟨row, old, hrow, -, hkind⟩ := exists_row_of_write hwrite
  refine ⟨old, openRead_eq_ok.2 ⟨hsame.takes_iff.2 htakes, read_eq_ok.2 ⟨row, ?_, ?_⟩⟩⟩
  · exact hsame.locate_eq_ok.2 hrow
  · rw [hkind, if_pos rfl]

/-! ## Paths that can be written -/

/-- Where something is written, a directory had room for it. -/
theorem row_of_write {change : File → File} (h : t.write p change = .ok t') :
    ∃ row, t.locate p = .ok row ∧ t.kindAt row ≠ some .folder ∧
      t.kindAt row.dropLast = some .folder := by
  have hsame := SameBut.of_write h
  obtain ⟨row, old, hrow, -, hkind⟩ := exists_row_of_write h
  have hwritten : t'.kindAt row = some (.file (change old)) := by rw [hkind, if_pos rfl]
  refine ⟨row, hrow, fun hfolder => ?_, hsame.folder.1 (kindAt_dropLast hwritten)⟩
  rw [hsame.folder.2 hfolder] at hwritten
  cases hwritten

theorem isWritable_iff : t.isWritable p = true ↔ t.Takes p ∧ ∃ row, t.locate p = .ok row ∧
    t.kindAt row ≠ some .folder ∧ t.kindAt row.dropLast = some .folder := by
  rw [isWritable]
  constructor
  · intro h
    cases hopen : t.openWrite p id with
    | error e => rw [hopen] at h; cases h
    | ok t' => exact (openWrite_eq_ok.1 hopen).imp_right row_of_write
  · rintro ⟨htakes, row, hrow, hnot, hparent⟩
    obtain ⟨t', hwrite⟩ := exists_write_of_row hrow hnot hparent id
    rw [openWrite_eq_ok.2 ⟨htakes, hwrite⟩]
    rfl

theorem exists_openWrite (h : t.isWritable p = true) (change : File → File) :
    ∃ t', t.openWrite p change = .ok t' := by
  obtain ⟨htakes, row, hrow, hnot, hparent⟩ := isWritable_iff.1 h
  obtain ⟨t', hwrite⟩ := exists_write_of_row hrow hnot hparent change
  exact ⟨t', openWrite_eq_ok.2 ⟨htakes, hwrite⟩⟩

theorem isWritable_of_openWrite {change : File → File} (h : t.openWrite p change = .ok t') :
    t.isWritable p = true :=
  isWritable_iff.2 ((openWrite_eq_ok.1 h).imp_right row_of_write)

theorem isWritable_of_openWrite_error {change : File → File} {failure : FileFailure}
    (h : t.openWrite p change = .error failure) : t.isWritable p = false := by
  rw [Bool.eq_false_iff]
  intro hwritable
  obtain ⟨t', ht'⟩ := exists_openWrite hwritable change
  rw [ht'] at h
  cases h

/-- What is opened for reading can be opened for writing. -/
theorem isWritable_of_openRead {f : File} (h : t.openRead p = .ok f) : t.isWritable p = true := by
  obtain ⟨htakes, hread⟩ := openRead_eq_ok.1 h
  obtain ⟨row, hrow, hkind⟩ := read_eq_ok.1 hread
  exact isWritable_iff.2 ⟨htakes, row, hrow, by rw [hkind]; simp, kindAt_dropLast hkind⟩

/-- Where a file can be written depends on the directories alone. -/
theorem SameBut.isWritable_eq {P : List Text → Prop} (h : SameBut P t t') (p : Path) :
    t'.isWritable p = t.isWritable p := by
  rw [Bool.eq_iff_iff, isWritable_iff, isWritable_iff, h.takes_iff]
  simp only [h.locate_eq_ok, ne_eq, h.folder]

/-! ## One file by two paths -/

/-- Two paths lead to one place. -/
def SameFile (t : FileTree) (p q : Path) : Prop :=
  (t.locate p).isOk = true ∧ t.locate p = t.locate q

instance (t : FileTree) (p q : Path) : Decidable (t.SameFile p q) :=
  inferInstanceAs (Decidable (_ ∧ _))

theorem sameFile_iff : t.SameFile p q ↔ ∃ row, t.locate p = .ok row ∧ t.locate q = .ok row := by
  rw [SameFile]
  cases t.locate p with
  | error e => simp [Except.isOk, Except.toBool]
  | ok row => simp [Except.isOk, Except.toBool, eq_comm]

theorem SameFile.symm (h : t.SameFile p q) : t.SameFile q p := by
  obtain ⟨row, hp, hq⟩ := FileTree.sameFile_iff.1 h
  exact FileTree.sameFile_iff.2 ⟨row, hq, hp⟩

theorem SameBut.sameFile_iff {P : List Text → Prop} (h : SameBut P t t') :
    t'.SameFile p q ↔ t.SameFile p q := by
  simp only [FileTree.sameFile_iff, h.locate_eq_ok]

/-- What is not at the end of one path is not at a row where that path leads. -/
theorem not_locate_of_not_sameFile (h : ¬ t.SameFile p q) (row : List Text)
    (hrow : t.locate q = .ok row) : ¬ t.locate p = .ok row :=
  fun hp => h (sameFile_iff.2 ⟨row, hp, hrow⟩)

end FileTree

end Shorthand
