import Shorthand.Cache
import Shorthand.Proofs.FileTree

/-!
# Collections

What a collection leaves of a tree with distinct names.

- `FileEntry.swept`, `find?_sweep`: what it leaves of one entry of a directory.
- `kindAt_of_sweep`: it adds nothing. `kindAt_sweep_of_not_shown`: it leaves everything that a hidden
  name leads to.
- `kindAt_sweep`: of the other files, it leaves exactly those that have not expired, and none unless
  it is one of expired files only.
- `kindAt_sweep_expired_folder`, `kindAt_sweep_all_folder`: of the other directories, it leaves all
  when it is one of expired files only, else those with a hidden name somewhere below them
  (`FileTree.HoldsHidden`).
- `sweep_failed_iff`: a collection of all files fails when it leaves one of these directories; one of
  expired files never does (`sweep_expired_ok`).
-/

namespace Shorthand

/-- None of the names is hidden. -/
def Shown (row : List Text) : Prop :=
  ∀ name ∈ row, isHiddenName name = false

instance (row : List Text) : Decidable (Shown row) :=
  inferInstanceAs (Decidable (∀ name ∈ row, isHiddenName name = false))

theorem shown_nil : Shown [] := by simp [Shown]

theorem shown_cons {name : Text} {row : List Text} :
    Shown (name :: row) ↔ isHiddenName name = false ∧ Shown row := by simp [Shown]

theorem not_shown_of_mem {name : Text} {row : List Text} (h : isHiddenName name = true)
    (hmem : name ∈ row) : ¬ Shown row := by
  intro hrow
  rw [hrow name hmem] at h
  cases h

/-- What a collection leaves of an entry. -/
def FileEntry.swept (expiredOnly : Bool) (now : Int) (name : Text) : FileEntry → Option FileEntry
  | file f =>
    if !isHiddenName name && (!expiredOnly || f.stamp < now) then none else some (file f)
  | folder inside =>
    if isHiddenName name then some (folder inside)
    else if !expiredOnly && (inside.sweep expiredOnly now).1.isEmpty then none
    else some (folder (inside.sweep expiredOnly now).1)

/-- Of a file with a visible name, a collection leaves all or nothing. -/
theorem FileEntry.swept_file_eq_some {expiredOnly : Bool} {now : Int} {name : Text}
    (hname : isHiddenName name = false) {f : File} {e : FileEntry} :
    (file f).swept expiredOnly now name = some e ↔
      file f = e ∧ expiredOnly = true ∧ now ≤ f.stamp := by
  cases expiredOnly with
  | false => simp [swept, hname]
  | true =>
    by_cases hexpired : f.stamp < now
    · simp [swept, hname, hexpired]
    · simp [swept, hname, hexpired, Int.not_lt.1 hexpired]

theorem FileEntry.swept_file_all {name : Text} (hname : isHiddenName name = false) (now : Int)
    (f : File) : (file f).swept false now name = none := by
  simp [swept, hname]

theorem FileEntry.swept_of_hidden {name : Text} (hname : isHiddenName name = true)
    (expiredOnly : Bool) (now : Int) (e : FileEntry) : e.swept expiredOnly now name = some e := by
  cases e <;> simp [swept, hname]

namespace FileTree

theorem isEmpty_iff {t : FileTree} : t.isEmpty = true ↔ t = nil := by
  cases t <;> simp [isEmpty]

/-- A collection goes over the entries of a directory one by one. -/
theorem sweep_cons (expiredOnly : Bool) (now : Int) (name : Text) (e : FileEntry)
    (rest : FileTree) :
    ((cons name e rest).sweep expiredOnly now).1 =
      match e.swept expiredOnly now name with
      | some e' => cons name e' (rest.sweep expiredOnly now).1
      | none => (rest.sweep expiredOnly now).1 := by
  cases e with
  | file f =>
    simp only [cons, sweep, FileEntry.swept]
    split <;> rfl
  | folder inside =>
    simp only [cons, sweep, FileEntry.swept]
    cases isHiddenName name <;> cases expiredOnly
    · cases (inside.sweep false now).1.isEmpty <;> rfl
    all_goals rfl

theorem find?_sweep {t : FileTree} (h : t.Distinct) (expiredOnly : Bool) (now : Int)
    (name : Text) : (t.sweep expiredOnly now).1.find? name =
      (t.find? name).bind (·.swept expiredOnly now name) := by
  induction t using cons_induction with
  | nil => rfl
  | cons n e rest ih =>
    obtain ⟨hn, -, hrest⟩ := distinct_cons.1 h
    rw [sweep_cons, find?_cons]
    by_cases hname : n = name
    · subst hname
      rw [if_pos rfl, Option.bind_some]
      cases hswept : e.swept expiredOnly now n with
      | none => simp only [ih hrest, hn, Option.bind_none]
      | some e' => simp only [find?_cons, if_true]
    · rw [if_neg hname, ← ih hrest]
      cases e.swept expiredOnly now n with
      | none => rfl
      | some e' => simp only [find?_cons, if_neg hname]

/-- A collection adds nothing. -/
theorem kindAt_of_sweep {t : FileTree} (h : t.Distinct) {expiredOnly : Bool} {now : Int}
    {row : List Text} {kind : FileKind}
    (hkind : (t.sweep expiredOnly now).1.kindAt row = some kind) : t.kindAt row = some kind := by
  induction row generalizing t with
  | nil => exact hkind
  | cons name row ih =>
    rw [kindAt_cons, find?_sweep h] at hkind
    rw [kindAt_cons]
    cases hfind : t.find? name with
    | none => simp [hfind] at hkind
    | some e =>
      rw [hfind, Option.bind_some] at hkind
      rw [Option.bind_some]
      obtain ⟨e', he', hkind⟩ := Option.bind_eq_some_iff.1 hkind
      cases e with
      | file f =>
        rw [FileEntry.swept] at he'
        split at he' <;> cases he'
        exact hkind
      | folder inside =>
        rw [FileEntry.swept] at he'
        split at he'
        · cases he'
          exact hkind
        · split at he' <;> cases he'
          exact ih (h.find? hfind) hkind

/-- What stands below a directory with a visible name is what is left of its entries. -/
theorem bind_kindAt_swept_folder {expiredOnly : Bool} {now : Int} {name : Text}
    (hname : isHiddenName name = false) (inside : FileTree) {row : List Text} (hne : row ≠ []) :
    ((FileEntry.folder inside).swept expiredOnly now name).bind (·.kindAt row) =
      (inside.sweep expiredOnly now).1.kindAt row := by
  obtain ⟨m, below, rfl⟩ := List.exists_cons_of_ne_nil hne
  simp only [FileEntry.swept, hname, Bool.false_eq_true, if_false]
  split
  · obtain ⟨-, hempty⟩ := Bool.and_eq_true_iff.1 ‹_›
    rw [isEmpty_iff.1 hempty, kindAt_nil_cons, Option.bind_none]
  · rfl

/-- What a hidden name leads to is left alone. -/
theorem kindAt_sweep_of_not_shown {t : FileTree} (h : t.Distinct) (expiredOnly : Bool) (now : Int)
    {row : List Text} (hrow : ¬ Shown row) :
    (t.sweep expiredOnly now).1.kindAt row = t.kindAt row := by
  induction row generalizing t with
  | nil => exact absurd shown_nil hrow
  | cons name row ih =>
    rw [kindAt_cons, kindAt_cons, find?_sweep h]
    cases hfind : t.find? name with
    | none => rfl
    | some e =>
      rw [Option.bind_some, Option.bind_some]
      cases hname : isHiddenName name with
      | true => rw [FileEntry.swept_of_hidden hname, Option.bind_some]
      | false =>
        have hbelow : ¬ Shown row := by simpa [shown_cons, hname] using hrow
        have hne : row ≠ [] := by
          rintro rfl
          exact hbelow shown_nil
        cases e with
        | file f =>
          obtain ⟨m, below, rfl⟩ := List.exists_cons_of_ne_nil hne
          simp only [FileEntry.swept]
          split <;> rfl
        | folder inside =>
          rw [bind_kindAt_swept_folder hname inside hne, kindAt_folder]
          exact ih (h.find? hfind) hbelow

/-- Of the files that no hidden name leads to, a collection leaves those that have not expired, and
none unless it is one of expired files only. -/
theorem kindAt_sweep {t : FileTree} (h : t.Distinct) {expiredOnly : Bool} {now : Int}
    {row : List Text} (hrow : Shown row) {f : File} :
    (t.sweep expiredOnly now).1.kindAt row = some (.file f) ↔
      t.kindAt row = some (.file f) ∧ expiredOnly = true ∧ now ≤ f.stamp := by
  induction row generalizing t with
  | nil => simp
  | cons name row ih =>
    obtain ⟨hname, hbelow⟩ := shown_cons.1 hrow
    rw [kindAt_cons, kindAt_cons, find?_sweep h]
    cases hfind : t.find? name with
    | none => simp
    | some e =>
      rw [Option.bind_some, Option.bind_some]
      cases e with
      | file g =>
        cases row with
        | cons m row => simp only [FileEntry.swept]; split <;> simp
        | nil =>
          constructor
          · intro hkind
            obtain ⟨e, he, hkind⟩ := Option.bind_eq_some_iff.1 hkind
            obtain ⟨rfl, hlive⟩ := (FileEntry.swept_file_eq_some hname).1 he
            cases hkind
            exact ⟨rfl, hlive⟩
          · rintro ⟨hkind, hlive⟩
            cases hkind
            rw [(FileEntry.swept_file_eq_some hname).2 ⟨rfl, hlive⟩]
            rfl
      | folder inside =>
        cases row with
        | nil =>
          simp only [FileEntry.swept, hname, Bool.false_eq_true, if_false]
          split <;> simp [FileEntry.kind]
        | cons m row =>
          rw [bind_kindAt_swept_folder hname inside (List.cons_ne_nil m row), kindAt_folder]
          exact ih (h.find? hfind) hbelow

/-! ## Directories -/

/-- A collection of expired files leaves all directories. -/
theorem kindAt_sweep_expired_folder {t : FileTree} (h : t.Distinct) {now : Int} {row : List Text} :
    (t.sweep true now).1.kindAt row = some .folder ↔ t.kindAt row = some .folder := by
  refine ⟨kindAt_of_sweep h, fun hrow => ?_⟩
  induction row generalizing t with
  | nil => rfl
  | cons name row ih =>
    rw [kindAt_cons] at hrow
    obtain ⟨e, hfind, he⟩ := Option.bind_eq_some_iff.1 hrow
    rw [kindAt_cons, find?_sweep h, hfind, Option.bind_some]
    cases e with
    | file f => cases row <;> cases he
    | folder inside =>
      simp only [FileEntry.swept, Bool.not_true, Bool.false_and, Bool.false_eq_true, if_false]
      split
      · exact he
      · exact ih (h.find? hfind) he

/-- An entry with a hidden name stands somewhere below the row. -/
def HoldsHidden (t : FileTree) (row : List Text) : Prop :=
  ∃ names name, isHiddenName name = true ∧ t.kindAt (row ++ (names ++ [name])) ≠ none

namespace HoldsHidden

variable {t inside : FileTree} {name : Text} {row : List Text}

theorem of_name (hname : isHiddenName name = true) {e : FileEntry} (hfind : t.find? name = some e) :
    t.HoldsHidden [] :=
  ⟨[], name, hname, by simp [kindAt_cons, hfind]⟩

theorem cons (h : inside.HoldsHidden row) (hfind : t.find? name = some (.folder inside)) :
    t.HoldsHidden (name :: row) := by
  obtain ⟨names, last, hlast, hkind⟩ := h
  refine ⟨names, last, hlast, ?_⟩
  rwa [List.cons_append, kindAt_cons, hfind, Option.bind_some, kindAt_folder]

theorem of_append {below : List Text} (h : t.HoldsHidden (row ++ below)) : t.HoldsHidden row := by
  obtain ⟨names, last, hlast, hkind⟩ := h
  exact ⟨below ++ names, last, hlast, by simpa using hkind⟩

/-- A collection leaves a hidden entry, and so the directories around it. -/
theorem kindAt_sweep (h : t.HoldsHidden row) (ht : t.Distinct) (expiredOnly : Bool) (now : Int) :
    (t.sweep expiredOnly now).1.kindAt row = some .folder := by
  obtain ⟨names, last, hlast, hkind⟩ := h
  have hrow : ¬ Shown (row ++ (names ++ [last])) := not_shown_of_mem hlast (by simp)
  rw [← kindAt_sweep_of_not_shown ht expiredOnly now hrow] at hkind
  obtain ⟨kind, hkind⟩ := Option.ne_none_iff_exists'.1 hkind
  exact kindAt_of_append (by simp) hkind

end HoldsHidden

/-- Where a collection of all files leaves anything, a hidden name is the cause. -/
theorem holdsHidden_of_sweep_ne_nil {t : FileTree} (h : t.Distinct) {now : Int}
    (hne : (t.sweep false now).1 ≠ nil) : t.HoldsHidden [] := by
  induction t using find?_induction with
  | step t ih =>
    obtain ⟨name, left, hleft⟩ := exists_find?_of_ne_nil hne
    rw [find?_sweep h] at hleft
    obtain ⟨e, hfind, hswept⟩ := Option.bind_eq_some_iff.1 hleft
    cases hname : isHiddenName name with
    | true => exact .of_name hname hfind
    | false =>
      cases e with
      | file f => simp [FileEntry.swept_file_all hname] at hswept
      | folder inside =>
        have hinside : (inside.sweep false now).1 ≠ nil := by
          intro hnil
          simp [FileEntry.swept, hname, hnil, isEmpty] at hswept
        have hhidden : t.HoldsHidden ([] ++ [name]) :=
          (ih name inside hfind (h.find? hfind) hinside).cons hfind
        exact hhidden.of_append

/-- Of the directories that no hidden name leads to, a collection of all files leaves those with a
hidden name somewhere below them. -/
theorem kindAt_sweep_all_folder {t : FileTree} (h : t.Distinct) {now : Int} {row : List Text}
    (hrow : Shown row) (hne : row ≠ []) :
    (t.sweep false now).1.kindAt row = some .folder ↔ t.HoldsHidden row := by
  refine ⟨fun hkind => ?_, fun hhidden => hhidden.kindAt_sweep h false now⟩
  induction row generalizing t with
  | nil => exact absurd rfl hne
  | cons name row ih =>
    obtain ⟨hname, hbelow⟩ := shown_cons.1 hrow
    rw [kindAt_cons, find?_sweep h] at hkind
    cases hfind : t.find? name with
    | none => simp [hfind] at hkind
    | some e =>
      rw [hfind, Option.bind_some] at hkind
      cases e with
      | file f => simp [FileEntry.swept_file_all hname] at hkind
      | folder inside =>
        have hinside : inside.HoldsHidden row := by
          by_cases hnil : row = []
          · subst hnil
            have hleft : (inside.sweep false now).1 ≠ nil := by
              intro hempty
              simp [FileEntry.swept, hname, hempty, isEmpty] at hkind
            exact holdsHidden_of_sweep_ne_nil (h.find? hfind) hleft
          · rw [bind_kindAt_swept_folder hname inside hnil] at hkind
            exact ih (h.find? hfind) hbelow hnil hkind
        exact hinside.cons hfind

/-! ## Failure -/

/-- A collection of expired files has no directory to remove, so it never fails. -/
theorem sweep_expired_ok (t : FileTree) (now : Int) : (t.sweep true now).2 = true := by
  induction t with
  | nil => rfl
  | file name f rest ih =>
    simp only [FileTree.sweep]
    split <;> exact ih
  | folder name inside rest ihinside ih =>
    simp only [FileTree.sweep]
    split
    · exact ih
    · simp [ih, ihinside]

/-- A collection of all files fails when it leaves a directory with a visible name. -/
theorem sweep_eq_false_iff {t : FileTree} (h : t.Distinct) {now : Int} :
    (t.sweep false now).2 = false ↔
      ∃ name left, isHiddenName name = false ∧
        (t.sweep false now).1.find? name = some (.folder left) := by
  induction t with
  | nil => simp [FileTree.sweep, find?]
  | file name f rest ih =>
    have habsent := find?_sweep h.2 false now name
    rw [h.1, Option.bind_none] at habsent
    have hrest := ih h.2
    simp only [FileTree.sweep]
    split
    · exact hrest
    · simp only [hrest, find?]
      grind
  | folder name inside rest ihinside ih =>
    have habsent := find?_sweep h.2.2 false now name
    rw [h.1, Option.bind_none] at habsent
    have hrest := ih h.2.2
    have hinside := ihinside h.2.1
    simp only [FileTree.sweep, Bool.false_eq_true, if_false]
    split
    · simp only [hrest, find?]
      grind
    · have hname : isHiddenName name = false := by simpa using ‹¬isHiddenName name = true›
      split
      · -- The directory is removed, so that nothing in it has failed to be.
        have hempty := isEmpty_iff.1 ‹(inside.sweep false now).1.isEmpty = true›
        have hok : (inside.sweep false now).2 = true := by
          rw [← Bool.not_eq_false, hinside, hempty]
          simp [find?]
        rwa [hok, Bool.and_true]
      · simp only [true_iff]
        exact ⟨name, (inside.sweep false now).1, hname, by rw [find?, if_pos rfl]⟩

/-- A collection of all files fails when it leaves a directory below the root that no hidden name
leads to. -/
theorem sweep_failed_iff {t : FileTree} (h : t.Distinct) {now : Int} :
    (t.sweep false now).2 = false ↔
      ∃ row, row ≠ [] ∧ Shown row ∧ (t.sweep false now).1.kindAt row = some .folder := by
  rw [sweep_eq_false_iff h]
  constructor
  · rintro ⟨name, left, hname, hleft⟩
    refine ⟨[name], List.cons_ne_nil name [], shown_cons.2 ⟨hname, shown_nil⟩, ?_⟩
    rw [kindAt_cons, hleft]
    rfl
  · rintro ⟨row, hne, hrow, hkind⟩
    obtain ⟨name, below, rfl⟩ := List.exists_cons_of_ne_nil hne
    rw [kindAt_cons] at hkind
    obtain ⟨e, hfind, he⟩ := Option.bind_eq_some_iff.1 hkind
    cases e with
    | file f => cases below <;> cases he
    | folder left => exact ⟨name, left, (shown_cons.1 hrow).1, hfind⟩

/-! ## Names -/

theorem Distinct.sweep {t : FileTree} (h : t.Distinct) (expiredOnly : Bool) (now : Int) :
    (t.sweep expiredOnly now).1.Distinct := by
  induction t with
  | nil => trivial
  | file name f rest ih =>
    have hname := find?_sweep h.2 expiredOnly now name
    rw [h.1] at hname
    simp only [FileTree.sweep]
    split
    · exact ih h.2
    · exact ⟨hname, ih h.2⟩
  | folder name inside rest ihinside ih =>
    have hname := find?_sweep h.2.2 expiredOnly now name
    rw [h.1] at hname
    simp only [FileTree.sweep]
    split
    · exact ⟨hname, h.2.1, ih h.2.2⟩
    · split
      · exact ⟨hname, ihinside h.2.1, ih h.2.2⟩
      · split
        · exact ih h.2.2
        · exact ⟨hname, ihinside h.2.1, ih h.2.2⟩

end FileTree

end Shorthand
