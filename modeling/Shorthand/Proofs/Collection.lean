import Shorthand.Proofs.CacheFiles

/-!
# What a collection removes

The whole effect of a collection on a file tree, whatever the cache directory holds.

- `ShownBelow`: the rows that it looks at, those below the directory without a hidden name.
- `Cache.kindAt_sweepAll_file`, `Cache.kindAt_sweepAll_expired_folder`,
  `Cache.kindAt_sweepAll_all_folder`: the files and directories that it leaves.
- `Cache.lookup_sweepAll_expired`, `Cache.lookup_sweepAll_all`: look-ups afterwards.
- `sweepAll_exact`: all of this together, and when it reports a failure.
-/

namespace Shorthand

/-- The row leads below the directory at `d`, and no name on the way from there is hidden. -/
def ShownBelow (d row : List Text) : Prop :=
  ∃ names, names ≠ [] ∧ Shown names ∧ row = d ++ names

theorem shownBelow_append {d names : List Text} :
    ShownBelow d (d ++ names) ↔ names ≠ [] ∧ Shown names := by
  simp [ShownBelow]

theorem not_shownBelow {d row : List Text} (h : ¬ d <+: row) : ¬ ShownBelow d row := by
  rintro ⟨names, -, -, rfl⟩
  exact h (List.prefix_append d names)

namespace FileTree

theorem holdsHidden_append {t inside : FileTree} {d : List Text}
    (h : t.entryAt d = some (.folder inside)) {row : List Text} :
    t.HoldsHidden (d ++ row) ↔ inside.HoldsHidden row := by
  simp only [HoldsHidden, List.append_assoc, kindAt_below h]

end FileTree

namespace Cache

open FileTree

variable {c : Cache} {t inside : FileTree} {d row : List Text} {now : Int}

section Left

variable (ht : t.Distinct) (hd : t.locate c.directory = .ok d)
  (h : t.entryAt d = some (.folder inside))

include ht hd h

/-- A collection leaves a file with a hidden name on the way to it, one outside of the directory,
and, if it is one of expired files only, one that has not expired. -/
theorem kindAt_sweepAll_file {expiredOnly : Bool} {f : File} :
    (c.sweepAll now expiredOnly t).1.kindAt row = some (.file f) ↔
      t.kindAt row = some (.file f) ∧
        ¬ (ShownBelow d row ∧ (expiredOnly = true → f.stamp < now)) := by
  have hinside : inside.Distinct := ht.entryAt h
  rw [sweepAll_eq hd h]
  by_cases hbelow : d <+: row
  · obtain ⟨names, rfl⟩ := hbelow
    rw [kindAt_graft_append h, kindAt_below h, shownBelow_append]
    by_cases hshown : Shown names
    · have hne : inside.kindAt names = some (.file f) → names ≠ [] := by
        rintro hkind rfl
        cases hkind
      rw [FileTree.kindAt_sweep hinside hshown]
      grind
    · rw [kindAt_sweep_of_not_shown hinside _ _ hshown]
      simp [hshown]
  · rw [kindAt_graft_outside h _ hbelow]
    simp [not_shownBelow hbelow]

/-- A collection of expired files leaves all directories. -/
theorem kindAt_sweepAll_expired_folder :
    (c.sweepAll now true t).1.kindAt row = some .folder ↔ t.kindAt row = some .folder := by
  rw [sweepAll_eq hd h]
  by_cases hbelow : d <+: row
  · obtain ⟨names, rfl⟩ := hbelow
    rw [kindAt_graft_append h, kindAt_below h, kindAt_sweep_expired_folder (ht.entryAt h)]
  · rw [kindAt_graft_outside h _ hbelow]

/-- A collection of all files leaves a directory with a hidden name on the way to it or below it,
and one outside of the cache directory. -/
theorem kindAt_sweepAll_all_folder :
    (c.sweepAll now false t).1.kindAt row = some .folder ↔
      t.kindAt row = some .folder ∧ ¬ (ShownBelow d row ∧ ¬ t.HoldsHidden row) := by
  have hinside : inside.Distinct := ht.entryAt h
  rw [sweepAll_eq hd h]
  by_cases hbelow : d <+: row
  · obtain ⟨names, rfl⟩ := hbelow
    rw [kindAt_graft_append h, kindAt_below h, shownBelow_append, holdsHidden_append h]
    by_cases hshown : Shown names
    · by_cases hnil : names = []
      · simp [hnil]
      · rw [kindAt_sweep_all_folder hinside hshown hnil]
        have hfolder : inside.HoldsHidden names → inside.kindAt names = some .folder :=
          fun hhidden => kindAt_of_sweep hinside (hhidden.kindAt_sweep hinside false now)
        grind
    · rw [kindAt_sweep_of_not_shown hinside _ _ hshown]
      simp [hshown]
  · rw [kindAt_graft_outside h _ hbelow]
    simp [not_shownBelow hbelow]

/-- Where a path leads after a collection, it has led before. -/
theorem locate_of_sweepAll {expiredOnly : Bool} {p : Path}
    (hp : (c.sweepAll now expiredOnly t).1.locate p = .ok row) : t.locate p = .ok row := by
  refine locate_mono (fun names hnames => ?_) hp
  cases expiredOnly with
  | true => exact (kindAt_sweepAll_expired_folder ht hd h).1 hnames
  | false => exact ((kindAt_sweepAll_all_folder ht hd h).1 hnames).1

/-- A key's file that is there after a collection was there before, and has not expired. -/
theorem read_sweepAll {expiredOnly : Bool} {key : Text} {f : File} (hext : '/' ∉ c.extension)
    (hread : (c.sweepAll now expiredOnly t).1.read (c.pathFor key) = .ok f) :
    t.read (c.pathFor key) = .ok f ∧ expiredOnly = true ∧ now ≤ f.stamp := by
  have hup := staysBelow_of_not_mem hext
  have hshown : ShownBelow d (d ++ c.row key) :=
    shownBelow_append.2 ⟨c.row_ne_nil key, fun _ => isHiddenName_of_mem_row hext⟩
  obtain ⟨row, hrow, hkind⟩ := read_eq_ok.1 hread
  have hrow := locate_of_sweepAll ht hd h hrow
  obtain ⟨hold, hlive⟩ := (kindAt_sweepAll_file ht hd h).1 hkind
  refine ⟨read_eq_ok.2 ⟨row, hrow, hold⟩, ?_⟩
  rw [locate_pathFor hup, hd, ok_map, Except.ok.injEq] at hrow
  subst hrow
  grind

/-- A collection of expired files changes no look-up from then on. -/
theorem lookup_sweepAll_expired (hext : '/' ∉ c.extension) {later : Int} (hlater : now ≤ later)
    (key : Text) : c.lookup later (c.sweepAll now true t).1 key = c.lookup later t key := by
  refine Option.ext fun text => ?_
  simp only [lookup_eq_some]
  constructor
  · rintro ⟨f, hread, hlive, htext⟩
    exact ⟨f, (read_sweepAll ht hd h hext hread).1, hlive, htext⟩
  · rintro ⟨f, hread, hlive, htext⟩
    obtain ⟨row, hrow, hkind⟩ := read_eq_ok.1 hread
    refine ⟨f, read_eq_ok.2 ⟨row, ?_, ?_⟩, hlive, htext⟩
    · exact locate_mono (fun _ => (kindAt_sweepAll_expired_folder ht hd h).2) hrow
    · refine (kindAt_sweepAll_file ht hd h).2 ⟨hkind, fun ⟨_, hexpired⟩ => ?_⟩
      have := hexpired rfl
      omega

/-- After a collection of all files no text is found. -/
theorem lookup_sweepAll_all (hext : '/' ∉ c.extension) (time : Int) (key : Text) :
    c.lookup time (c.sweepAll now false t).1 key = none := by
  refine Option.eq_none_iff_forall_ne_some.2 fun text htext => ?_
  obtain ⟨f, hread, -⟩ := lookup_eq_some.1 htext
  obtain ⟨-, hexpired, -⟩ := read_sweepAll ht hd h hext hread
  cases hexpired

/-- A collection of all files fails when it leaves a directory that it looks at. -/
theorem sweepAll_failed_iff :
    (c.sweepAll now false t).2 = false ↔
      ∃ row, ShownBelow d row ∧ (c.sweepAll now false t).1.kindAt row = some .folder := by
  rw [sweepAll_eq hd h]
  simp only [sweep_failed_iff (ht.entryAt h)]
  constructor
  · rintro ⟨names, hne, hshown, hkind⟩
    exact ⟨d ++ names, shownBelow_append.2 ⟨hne, hshown⟩, by rwa [kindAt_graft_append h]⟩
  · rintro ⟨row, ⟨names, hne, hshown, rfl⟩, hkind⟩
    exact ⟨names, hne, hshown, by rwa [kindAt_graft_append h] at hkind⟩

end Left

end Cache

/-- **Exact effect of a collection.** Let names be distinct in every directory, and the cache
directory be there.

A collection of expired files removes exactly the expired files below the cache directory without a
hidden name on the way to them, and no directory. It changes no look-up from then on.

A collection of all files removes exactly the files below the cache directory without a hidden name
on the way to them, and the directories of this kind without a hidden entry anywhere below them.
Afterwards no text is found. It fails exactly when it leaves a directory below the cache directory
without a hidden name on the way to it. -/
theorem sweepAll_exact {c : Cache} {t : FileTree} {d : List Text} (ht : t.Distinct)
    (hd : t.locate c.directory = .ok d) (hfolder : t.kindAt d = some .folder)
    (hext : '/' ∉ c.extension) (now : Int) :
    (∃ after, c.sweepAll now true t = (after, true) ∧
      (∀ row f, after.kindAt row = some (.file f) ↔
        t.kindAt row = some (.file f) ∧ ¬ (ShownBelow d row ∧ f.stamp < now)) ∧
      (∀ row, after.kindAt row = some .folder ↔ t.kindAt row = some .folder) ∧
      ∀ later, now ≤ later → ∀ key, c.lookup later after key = c.lookup later t key) ∧
    (∃ after ok, c.sweepAll now false t = (after, ok) ∧
      (∀ row f, after.kindAt row = some (.file f) ↔
        t.kindAt row = some (.file f) ∧ ¬ ShownBelow d row) ∧
      (∀ row, after.kindAt row = some .folder ↔
        t.kindAt row = some .folder ∧ ¬ (ShownBelow d row ∧ ¬ t.HoldsHidden row)) ∧
      (∀ time key, c.lookup time after key = none) ∧
      (ok = false ↔ ∃ row, ShownBelow d row ∧ after.kindAt row = some .folder)) := by
  obtain ⟨inside, h⟩ := FileTree.kindAt_eq_folder.1 hfolder
  constructor
  · refine ⟨(c.sweepAll now true t).1, ?_, fun row f => ?_, fun row => ?_,
      fun later hlater key => ?_⟩
    · rw [Cache.sweepAll_eq hd h, FileTree.sweep_expired_ok]
    · rw [Cache.kindAt_sweepAll_file ht hd h]
      simp
    · exact Cache.kindAt_sweepAll_expired_folder ht hd h
    · exact Cache.lookup_sweepAll_expired ht hd h hext hlater key
  · refine ⟨(c.sweepAll now false t).1, (c.sweepAll now false t).2, rfl, fun row f => ?_,
      fun row => ?_, fun time key => ?_, ?_⟩
    · rw [Cache.kindAt_sweepAll_file ht hd h]
      simp
    · exact Cache.kindAt_sweepAll_all_folder ht hd h
    · exact Cache.lookup_sweepAll_all ht hd h hext time key
    · exact Cache.sweepAll_failed_iff ht hd h

/-- A hidden file two directories deep keeps both directories, and the one beside it is removed. -/
theorem sweepAll_exact_hidden :
    let c : Cache := { directory := ⟨[], ["cache".toList]⟩ }
    let deep : FileTree := .folder "b".toList (.file ".keep".toList { stamp := 3 } .nil)
      (.folder "d".toList .nil .nil)
    let t : FileTree := .folder "cache".toList
      (.file "x.xml".toList { stamp := 5 } (.folder "a".toList deep .nil)) .nil
    let row (names : List String) : List Text := names.map String.toList
    (t.Distinct ∧ t.locate c.directory = .ok (row ["cache"]) ∧
      t.kindAt (row ["cache"]) = some .folder ∧ '/' ∉ c.extension) ∧
    (∃ after, c.sweepAll 9 true t = (after, true) ∧
      after.kindAt (row ["cache", "x.xml"]) ≠ some (.file { stamp := 5 }) ∧
      after.kindAt (row ["cache", "a", "d"]) = some .folder) ∧
    ∃ after, c.sweepAll 9 false t = (after, false) ∧
      after.kindAt (row ["cache", "a", "b"]) = some .folder ∧
      after.kindAt (row ["cache", "a", "d"]) ≠ some .folder := by
  intro c deep t row
  have ht : t.Distinct := by simp [t, deep, FileTree.Distinct, FileTree.find?]
  have hd : t.locate c.directory = .ok (row ["cache"]) := rfl
  have hfolder : t.kindAt (row ["cache"]) = some .folder := rfl
  have hext : '/' ∉ c.extension := by decide
  have hshown (names : List String) (hne : row names ≠ []) (hvisible : Shown (row names)) :
      ShownBelow (row ["cache"]) (row ("cache" :: names)) := ⟨row names, hne, hvisible, rfl⟩
  obtain ⟨⟨expired, hexpired, hfile, hkept, -⟩, all, ok, hall, -, hfolders, -, hfailed⟩ :=
    sweepAll_exact ht hd hfolder hext 9
  refine ⟨⟨ht, hd, hfolder, hext⟩, ⟨expired, hexpired, fun hx => ?_, (hkept _).2 rfl⟩, all, ?_⟩
  · exact ((hfile _ _).1 hx).2 ⟨hshown ["x.xml"] (by decide) (by decide), by decide⟩
  · have hb : all.kindAt (row ["cache", "a", "b"]) = some .folder :=
      (hfolders _).2 ⟨rfl, fun hnone => hnone.2 ⟨[], ".keep".toList, rfl, by decide⟩⟩
    obtain rfl : ok = false := hfailed.2 ⟨_, hshown ["a", "b"] (by decide) (by decide), hb⟩
    refine ⟨hall, hb, fun hremoved => ?_⟩
    refine ((hfolders _).1 hremoved).2 ⟨hshown ["a", "d"] (by decide) (by decide), ?_⟩
    rintro ⟨names, name, -, hkind⟩
    exact hkind (by cases names <;> rfl)

end Shorthand
