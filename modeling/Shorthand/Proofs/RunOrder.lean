import Shorthand.Proofs.Isolation

/-!
# Runs in any order, once and again

When no destination is a source or another destination, a run over all pairs leaves what the pairs
come to by themselves, so neither their order nor an earlier run makes a difference.

- `FileTree.SameButTimes`: two trees differ in the times of the last changes alone.
- `FileTree.kindAt_of_writes`: two writes to one path change one file.
- `RunLeaves`: the tree that a run leaves, row by row. It does not depend on the order of the pairs
  (`RunLeaves.perm`), and a later run leaves the same but for the times (`RunLeaves.again`).
- `Clean`: the pairs that a run can expand in any order. They still are after a run
  (`Clean.remains`), and the run leaves what it should (`Clean.runLeaves`).
- `recompile_any_order`: the count and the files after a run, in any order and again.
  `recompile_ended_by_null`: a path with the character NUL ends the run.

Paths lead to files from the working directory only; absolute ones lead nowhere.
-/

namespace Shorthand

/-! ## Times of changes -/

/-- A file without the time of its last change. -/
def FileKind.timeless : FileKind → FileKind
  | file f => file { f with stamp := 0 }
  | folder => folder

namespace FileTree

/-- The trees have the same directories and files, with the same content and permission bits; only
the times of the last changes may differ. -/
def SameButTimes (t t' : FileTree) : Prop :=
  ∀ row, (t'.kindAt row).map FileKind.timeless = (t.kindAt row).map FileKind.timeless

/-! ## Files at the ends of rows -/

/-- The file at the end of a row of names, a new one if there is none. -/
def fileAt (t : FileTree) (row : List Text) : File :=
  match t.kindAt row with
  | some (.file f) => f
  | _ => {}

variable {t t' t'' : FileTree} {p : Path} {row : List Text}

theorem fileAt_eq {f : File} (h : t.kindAt row = some (.file f)) : t.fileAt row = f := by
  rw [fileAt, h]

theorem fileAt_congr (h : t'.kindAt row = t.kindAt row) : t'.fileAt row = t.fileAt row := by
  rw [fileAt, fileAt, h]

theorem kindAt_of_write {change : File → File} (h : t.write p change = .ok t')
    (hrow : t.locate p = .ok row) (other : List Text) : t'.kindAt other =
      if other = row then some (.file (change (t.fileAt row))) else t.kindAt other := by
  obtain ⟨row', old, hrow', hold, hkind⟩ := exists_row_of_write h
  obtain rfl : row' = row := by rwa [hrow', Except.ok.injEq] at hrow
  have hfile : t.fileAt row' = old := by
    rcases hold with ⟨hnone, rfl⟩ | hfile
    · rw [fileAt, hnone]
    · exact fileAt_eq hfile
  rw [hkind, hfile]

/-- Two writes to one path change one file. -/
theorem kindAt_of_writes {change change' : File → File} (h : t.write p change = .ok t')
    (h' : t'.write p change' = .ok t'') (hrow : t.locate p = .ok row) (other : List Text) :
    t''.kindAt other =
      if other = row then some (.file (change' (change (t.fileAt row)))) else t.kindAt other := by
  have hfile : t'.fileAt row = change (t.fileAt row) :=
    fileAt_eq (by rw [kindAt_of_write h hrow, if_pos rfl])
  have hrow' : t'.locate p = .ok row := (SameBut.of_write h).locate_eq_ok.2 hrow
  rw [kindAt_of_write h' hrow', kindAt_of_write h hrow, hfile]
  split <;> rfl

end FileTree

/-! ## What a run leaves -/

open FileTree

/-- The file after bytes are written to it. -/
def File.holding (f : File) (o : Occasion) (bytes : List UInt8) : File :=
  { f with content := bytes, stamp := o.storeTime }

/-- What a run over pairs leaves: the bytes of each pair that comes to any, in the file at its
destination; and everything else as it was. -/
structure RunLeaves (encode : Encoder) (c : Compiler) (o : Occasion) (pairs : List WritePair)
    (files files' : FileTree) : Prop where
  written {pair : WritePair} {bytes : List UInt8} {row : List Text} : pair ∈ pairs →
    pair.written? encode c o files = some bytes → files.locate pair.dst = .ok row →
    files'.kindAt row = some (.file ((files.fileAt row).holding o bytes))
  other {row : List Text} : (∀ pair ∈ pairs, (pair.written? encode c o files).isSome = true →
    files.locate pair.dst ≠ .ok row) → files'.kindAt row = files.kindAt row

variable {encode : Encoder} {c : Compiler} {o o' : Occasion} {files files' files'' : FileTree}
  {pair : WritePair} {pairs pairs' rest : List WritePair}

namespace RunLeaves

theorem perm (h : RunLeaves encode c o pairs files files') (hperm : pairs'.Perm pairs) :
    RunLeaves encode c o pairs' files files' where
  written hpair := h.written (hperm.mem_iff.1 hpair)
  other hrow := h.other fun pair hpair => hrow pair (hperm.mem_iff.2 hpair)

/-- A pair that comes to nothing leaves everything as it was. -/
theorem of_none (h : pair.written? encode c o files = none) :
    RunLeaves encode c o [pair] files files where
  written hpair hbytes := by
    rw [List.mem_singleton.1 hpair, h] at hbytes
    cases hbytes
  other _ := rfl

theorem of_some {bytes : List UInt8} {row : List Text}
    (h : pair.written? encode c o files = some bytes) (hrow : files.locate pair.dst = .ok row)
    (hkind : ∀ other, files'.kindAt other =
      if other = row then some (.file ((files.fileAt row).holding o bytes))
      else files.kindAt other) :
    RunLeaves encode c o [pair] files files' where
  written hpair hbytes hother := by
    obtain rfl := List.mem_singleton.1 hpair
    rw [hrow, Except.ok.injEq] at hother
    rw [h, Option.some.injEq] at hbytes
    rw [hkind, if_pos hother.symm, hother, hbytes]
  other hother := by
    rw [hkind, if_neg]
    rintro rfl
    exact hother pair (List.mem_singleton_self pair) (by rw [h]; rfl) hrow

/-- What a first pair leaves, and then the others. -/
theorem cons (hfirst : RunLeaves encode c o [pair] files files')
    (hrest : RunLeaves encode c o rest files' files'')
    (hsame : SameBut (files.locate pair.dst = .ok ·) files files')
    (hdistinct : ∀ q ∈ rest, ¬ files.SameFile pair.dst q.dst)
    (hbytes : ∀ q ∈ rest, q.written? encode c o files' = q.written? encode c o files) :
    RunLeaves encode c o (pair :: rest) files files'' where
  written {p markup row} hp hm hrow := by
    rcases List.mem_cons.1 hp with rfl | hp
    · -- no later pair has this destination
      rw [hrest.other fun q hq _ hother => hdistinct q hq <|
        sameFile_iff.2 ⟨row, hrow, hsame.locate_eq_ok.1 hother⟩]
      exact hfirst.written (List.mem_singleton_self p) hm hrow
    · have hother : files'.kindAt row = files.kindAt row :=
        hsame.other fun hfirst => hdistinct p hp (sameFile_iff.2 ⟨row, hfirst, hrow⟩)
      rw [hrest.written hp (hbytes p hp ▸ hm) (hsame.locate_eq_ok.2 hrow), fileAt_congr hother]
  other {row} hrow := by
    rw [hrest.other fun q hq hm hother => hrow q (List.mem_cons_of_mem _ hq) (hbytes q hq ▸ hm)
      (hsame.locate_eq_ok.1 hother)]
    refine hfirst.other fun p hp => ?_
    obtain rfl := List.mem_singleton.1 hp
    exact hrow p List.mem_cons_self

/-- At another time, the pairs leave the same but for the times of the changes. -/
theorem sameButTimes (h : RunLeaves encode c o pairs files files')
    (h' : RunLeaves encode c o' pairs files files'')
    (hbytes : ∀ pair ∈ pairs, pair.written? encode c o' files = pair.written? encode c o files) :
    SameButTimes files' files'' := by
  intro row
  by_cases hrow : ∃ pair ∈ pairs, (pair.written? encode c o files).isSome = true ∧
      files.locate pair.dst = .ok row
  · obtain ⟨pair, hpair, hsome, hdst⟩ := hrow
    obtain ⟨bytes, hm⟩ := Option.isSome_iff_exists.1 hsome
    rw [h.written hpair hm hdst, h'.written hpair ((hbytes pair hpair).trans hm) hdst]
    rfl
  · push Not at hrow
    rw [h.other hrow, h'.other fun pair hpair hsome =>
      hrow pair hpair (hbytes pair hpair ▸ hsome)]

/-- A second run leaves what a first run would leave at its time. -/
theorem again (h : RunLeaves encode c o pairs files files')
    (h' : RunLeaves encode c o' pairs files' files'')
    (hlocate : ∀ (p : Path) row, files'.locate p = .ok row ↔ files.locate p = .ok row)
    (hbefore : ∀ pair ∈ pairs, pair.written? encode c o' files = pair.written? encode c o files)
    (hbytes : ∀ pair ∈ pairs, pair.written? encode c o' files' = pair.written? encode c o' files) :
    RunLeaves encode c o' pairs files files'' where
  written {pair} _ _ hpair hm hrow := by
    have hfirst := h.written hpair ((hbefore pair hpair).symm.trans hm) hrow
    rw [h'.written hpair ((hbytes pair hpair).trans hm) ((hlocate _ _).2 hrow), fileAt_eq hfirst]
    rfl
  other {row} hrow := by
    rw [h'.other fun pair hpair hm hdst =>
      hrow pair hpair (hbytes pair hpair ▸ hm) ((hlocate _ _).1 hdst)]
    exact h.other fun pair hpair hm => hrow pair hpair (hbefore pair hpair ▸ hm)

end RunLeaves

/-! ## The turn of one pair -/

/-- A pair that is written has its bytes in the file at its destination, and changes nothing else. -/
theorem expandFile_of_written? (hcache : c.cache = none) {bytes : List UInt8}
    (hbytes : pair.written? encode c o files = some bytes) :
    ∃ files' row, expandFile encode c o files pair = (files', .ok ()) ∧
      files.locate pair.dst = .ok row ∧ ∀ other, files'.kindAt other =
        if other = row then some (.file ((files.fileAt row).holding o bytes))
        else files.kindAt other := by
  obtain ⟨source, markup, htext, houtput, hencode, hwritable⟩ :=
    WritePair.exists_source_of_written? hbytes
  obtain ⟨f, hread, hf⟩ := text?_eq_some.1 htext
  obtain ⟨emptied, hopen⟩ := exists_openWrite hwritable fun f =>
    { f with content := [], stamp := o.storeTime }
  have hemptied := (openWrite_eq_ok.1 hopen).2
  have hstill : emptied.isWritable pair.dst = true :=
    ((SameBut.of_write hemptied).isWritable_eq pair.dst).trans hwritable
  obtain ⟨written, hreopen⟩ := exists_openWrite hstill fun f => { f with content := bytes }
  have hwritten := (openWrite_eq_ok.1 hreopen).2
  have hturn : expandFile encode c o files pair = (written, .ok ()) := by
    rw [Compiler.output_expand hcache] at houtput
    simp only [expandFile, hread, hf, hopen, Compiler.output_expand hcache, houtput, hencode,
      Compiler.files_expand (.inl hcache), hwritten]
  obtain ⟨row, hrow, -⟩ := row_of_write hemptied
  exact ⟨written, row, hturn, hrow, kindAt_of_writes hemptied hwritten hrow⟩

/-! ## Pairs that a run can expand -/

/-- There is no cache, the destinations are different files and no sources, and whatever source can
be opened holds a text that can be expanded. The paths that are opened have no NUL, and the markup
that is written has bytes. -/
structure Clean (encode : Encoder) (c : Compiler) (files : FileTree) (pairs : List WritePair) :
    Prop where
  uncached : c.cache = none
  distinct : pairs.Pairwise fun p q => ¬ files.SameFile p.dst q.dst
  source : ∀ p ∈ pairs, ∀ q ∈ pairs, ¬ files.SameFile p.dst q.src
  expands : ∀ pair ∈ pairs, (files.openRead pair.src).isOk = true → ∃ source markup,
    files.text? pair.src = some source ∧ c.render source = .ok markup ∧
      (files.isWritable pair.dst = true → (encode markup).isSome = true)
  src : ∀ pair ∈ pairs, pair.src.hasNull = false
  dst : ∀ pair ∈ pairs, (files.openRead pair.src).isOk = true → pair.dst.hasNull = false

namespace Clean

theorem apart (h : Clean encode c files pairs) (o : Occasion) : Apart c o files pairs :=
  .of_uncached h.uncached h.distinct h.source

theorem perm (h : Clean encode c files pairs) (hperm : pairs'.Perm pairs) :
    Clean encode c files pairs' where
  uncached := h.uncached
  distinct := (hperm.pairwise_iff fun hne => mt SameFile.symm hne).2 h.distinct
  source p hp q hq := h.source p (hperm.mem_iff.1 hp) q (hperm.mem_iff.1 hq)
  expands pair hpair := h.expands pair (hperm.mem_iff.1 hpair)
  src pair hpair := h.src pair (hperm.mem_iff.1 hpair)
  dst pair hpair := h.dst pair (hperm.mem_iff.1 hpair)

theorem of_cons (h : Clean encode c files (pair :: rest)) : Clean encode c files rest where
  uncached := h.uncached
  distinct := h.distinct.of_cons
  source p hp q hq := h.source p (List.mem_cons_of_mem _ hp) q (List.mem_cons_of_mem _ hq)
  expands q hq := h.expands q (List.mem_cons_of_mem _ hq)
  src q hq := h.src q (List.mem_cons_of_mem _ hq)
  dst q hq := h.dst q (List.mem_cons_of_mem _ hq)

/-- A pair comes to the markup of its source when its source can be opened and its destination
written. -/
theorem exists_written? (h : Clean encode c files pairs) (hpair : pair ∈ pairs)
    (hread : (files.openRead pair.src).isOk = true) (hwritable : files.isWritable pair.dst = true) :
    ∃ source markup bytes, files.text? pair.src = some source ∧ c.render source = .ok markup ∧
      encode markup = some bytes ∧ ∀ o, pair.outcome encode c o files = some (.ok bytes) := by
  obtain ⟨source, markup, htext, hrender, hencode⟩ := h.expands pair hpair hread
  obtain ⟨bytes, hbytes⟩ := Option.isSome_iff_exists.1 (hencode hwritable)
  refine ⟨source, markup, bytes, htext, hrender, hbytes, fun o => ?_⟩
  have houtput : (c.expand o files source).output = .ok markup := by
    rw [Compiler.output_expand h.uncached, hrender]
  rw [WritePair.outcome_of_isWritable htext hwritable,
    Compiler.markupBytes_eq_ok.2 ⟨markup, houtput, hbytes⟩]

/-- Any other pair is passed over. -/
theorem outcome_eq_none (h : Clean encode c files pairs) (hpair : pair ∈ pairs)
    (hnot : ((files.openRead pair.src).isOk && files.isWritable pair.dst) = false) (o : Occasion) :
    pair.outcome encode c o files = none := by
  cases hread : files.openRead pair.src with
  | error failure =>
    rw [WritePair.outcome, if_neg (by simp [h.src pair hpair]), hread]
    rfl
  | ok f =>
    have hopened : (files.openRead pair.src).isOk = true := by rw [hread]; rfl
    have hwritable : files.isWritable pair.dst = false := by simpa [hopened] using hnot
    obtain ⟨source, markup, htext, -, -⟩ := h.expands pair hpair hopened
    obtain ⟨_, hread', hf⟩ := text?_eq_some.1 htext
    obtain rfl := Except.ok.inj (hread.symm.trans hread')
    rw [WritePair.outcome_of_openRead hread, hf]
    simp [h.dst pair hpair hopened, hwritable]

/-- A pair comes to its markup or is passed over, by whether its source can be opened and its
destination written. -/
theorem outcome_cases (h : Clean encode c files pairs) (hpair : pair ∈ pairs) (o : Occasion) :
    (∃ bytes, pair.outcome encode c o files = some (.ok bytes)) ∧
        ((files.openRead pair.src).isOk && files.isWritable pair.dst) = true ∨
      pair.outcome encode c o files = none ∧
        ((files.openRead pair.src).isOk && files.isWritable pair.dst) = false := by
  cases hboth : (files.openRead pair.src).isOk && files.isWritable pair.dst with
  | false => exact .inr ⟨h.outcome_eq_none hpair hboth o, rfl⟩
  | true =>
    obtain ⟨hread, hwritable⟩ := Bool.and_eq_true_iff.1 hboth
    obtain ⟨_, _, bytes, -, -, -, houtcome⟩ := h.exists_written? hpair hread hwritable
    exact .inl ⟨⟨bytes, houtcome o⟩, rfl⟩

theorem isSome_written? (h : Clean encode c files pairs) (hpair : pair ∈ pairs) :
    (pair.written? encode c o files).isSome =
      ((files.openRead pair.src).isOk && files.isWritable pair.dst) := by
  obtain ⟨⟨bytes, houtcome⟩, hboth⟩ | ⟨houtcome, hboth⟩ := h.outcome_cases hpair o
  · rw [hboth, WritePair.written?_eq_some.2 houtcome]
    rfl
  · rw [hboth, WritePair.written?, houtcome]
    rfl

theorem fault?_eq_none (h : Clean encode c files pairs) (hpair : pair ∈ pairs) :
    pair.fault? encode c o files = none := by
  obtain ⟨⟨bytes, houtcome⟩, -⟩ | ⟨houtcome, -⟩ := h.outcome_cases hpair o
  · rw [WritePair.fault?, houtcome]
  · rw [WritePair.fault?, houtcome]

/-- Without a cache, a pair comes to the same at any time. -/
theorem written?_occasion (h : Clean encode c files pairs) (pair : WritePair) (o o' : Occasion) :
    pair.written? encode c o' files = pair.written? encode c o files := by
  simp only [WritePair.written?, WritePair.outcome, Compiler.markupBytes,
    Compiler.output_expand h.uncached]

theorem isOk_openRead_src (h : Clean encode c files pairs)
    (hsame : SameBut (fun row => ∃ p ∈ pairs, files.locate p.dst = .ok row) files files')
    (hpair : pair ∈ pairs) : (files'.openRead pair.src).isOk = (files.openRead pair.src).isOk := by
  rw [isOk_eq_isSome, (h.apart {}).toOption_openRead_src hsame hpair, ← isOk_eq_isSome]

theorem of_sameBut (h : Clean encode c files pairs)
    (hsame : SameBut (fun row => ∃ p ∈ pairs, files.locate p.dst = .ok row) files files') :
    Clean encode c files' pairs where
  uncached := h.uncached
  distinct := ((h.apart {}).of_sameBut hsame).distinct
  source := ((h.apart {}).of_sameBut hsame).source
  expands pair hpair hread := by
    rw [h.isOk_openRead_src hsame hpair] at hread
    rw [(h.apart {}).text?_src hsame hpair, hsame.isWritable_eq]
    exact h.expands pair hpair hread
  src := h.src
  dst pair hpair hread := h.dst pair hpair (h.isOk_openRead_src hsame hpair ▸ hread)

/-! ## Runs -/

theorem sameBut_recompile (h : Clean encode c files pairs) (o : Occasion) :
    SameBut (fun row => ∃ p ∈ pairs, files.locate p.dst = .ok row) files
      (recompile encode c o files pairs).1 :=
  (h.apart o).sameBut_recompile

/-- After a run, the pairs can be expanded again. -/
theorem remains (h : Clean encode c files pairs) (o : Occasion) :
    Clean encode c (recompile encode c o files pairs).1 pairs :=
  h.of_sameBut (h.sameBut_recompile o)

theorem recompile_cons (h : Clean encode c files (pair :: rest)) (o : Occasion) :
    ∃ files', SameBut (files.locate pair.dst = .ok ·) files files' ∧
      RunLeaves encode c o [pair] files files' ∧
      (recompile encode c o files (pair :: rest)).1 = (recompile encode c o files' rest).1 := by
  have hturn : Turn encode c o files pair (expandFile encode c o files pair) := (h.apart o).turn
  rw [recompile]
  cases hbytes : pair.written? encode c o files with
  | none =>
    generalize expandFile encode c o files pair = out at hturn
    cases hturn with
    | passed error _ => exact ⟨files, .refl _ files, .of_none hbytes, rfl⟩
    | ended _ fault houtcome _ =>
      have hnone : pair.fault? encode c o files = none := h.fault?_eq_none List.mem_cons_self
      rw [WritePair.fault?_eq_some.2 houtcome] at hnone
      cases hnone
    | written _ bytes houtcome _ _ =>
      rw [WritePair.written?_eq_some.2 houtcome] at hbytes
      cases hbytes
  | some bytes =>
    obtain ⟨files', row, hwritten, hrow, hkind⟩ := expandFile_of_written? h.uncached hbytes
    rw [hwritten] at hturn ⊢
    cases hturn with
    | written _ _ _ hsame _ => exact ⟨files', hsame, .of_some hbytes hrow hkind, rfl⟩

theorem runLeaves (h : Clean encode c files pairs) (o : Occasion) :
    RunLeaves encode c o pairs files (recompile encode c o files pairs).1 := by
  induction pairs generalizing files with
  | nil => exact ⟨nofun, fun _ => rfl⟩
  | cons pair rest ih =>
    obtain ⟨files', hsame, hfirst, hrun⟩ := h.recompile_cons o
    rw [hrun]
    exact hfirst.cons (ih (h.of_sameBut hsame.of_first).of_cons) hsame
      (fun q hq => List.rel_of_pairwise_cons h.distinct hq)
      fun q hq => (h.apart o).written?_eq hsame.of_first (List.mem_cons_of_mem _ hq)

/-- A run counts the pairs whose source can be read and whose destination can be written. -/
theorem count (h : Clean encode c files pairs) (o : Occasion) :
    (recompile encode c o files pairs).2 =
      .ok (pairs.countP fun pair =>
        (files.openRead pair.src).isOk && files.isWritable pair.dst) := by
  rw [(h.apart o).recompile_count fun pair hpair => h.fault?_eq_none hpair]
  exact congrArg Except.ok (List.countP_congr fun pair hpair => by rw [h.isSome_written? hpair])

/-- Exactly these destinations hold the markup of their source. -/
theorem holds_iff (h : Clean encode c files pairs) (o : Occasion) (hpair : pair ∈ pairs) :
    (∃ source markup, files.text? pair.src = some source ∧ c.render source = .ok markup ∧
      ∃ bytes, encode markup = some bytes ∧
        (recompile encode c o files pairs).1.bytes? pair.dst = some bytes) ↔
    (files.openRead pair.src).isOk = true ∧ files.isWritable pair.dst = true := by
  have hsame := h.sameBut_recompile o
  constructor
  · rintro ⟨source, markup, htext, -, bytes, -, hbytes⟩
    obtain ⟨f, hread, -⟩ := text?_eq_some.1 htext
    obtain ⟨g, hopen, -⟩ := Option.map_eq_some_iff.1 hbytes
    refine ⟨by rw [hread]; rfl, ?_⟩
    rw [← hsame.isWritable_eq]
    exact isWritable_of_openRead (toOption_eq_some.1 hopen)
  · rintro ⟨hread, hwritable⟩
    obtain ⟨source, markup, bytes, htext, hrender, hencode, houtcome⟩ :=
      h.exists_written? hpair hread hwritable
    obtain ⟨htakes, row, hrow, -⟩ := isWritable_iff.1 hwritable
    have hkind := (h.runLeaves o).written hpair (WritePair.written?_eq_some.2 (houtcome o)) hrow
    refine ⟨source, markup, htext, hrender, bytes, hencode, ?_⟩
    have hread' := read_eq_ok.2 ⟨row, hsame.locate_eq_ok.2 hrow, hkind⟩
    exact bytes?_of_openRead (openRead_eq_ok.2 ⟨hsame.takes_iff.2 htakes, hread'⟩)

/-- Every other file is as it was. -/
theorem unchanged (h : Clean encode c files pairs) (o : Occasion) {row : List Text}
    (hrow : ∀ pair ∈ pairs, (files.openRead pair.src).isOk = true →
      files.isWritable pair.dst = true → files.locate pair.dst ≠ .ok row) :
    (recompile encode c o files pairs).1.kindAt row = files.kindAt row := by
  refine (h.runLeaves o).other fun pair hpair hwritten => ?_
  rw [h.isSome_written? hpair, Bool.and_eq_true] at hwritten
  exact hrow pair hpair hwritten.1 hwritten.2

/-- In another order and at another time, a run leaves the same. -/
theorem sameButTimes_perm (h : Clean encode c files pairs) (hperm : pairs'.Perm pairs)
    (o o' : Occasion) :
    SameButTimes (recompile encode c o files pairs).1 (recompile encode c o' files pairs').1 :=
  (h.runLeaves o).sameButTimes (((h.perm hperm).runLeaves o').perm hperm.symm) fun pair _ =>
    h.written?_occasion pair o o'

/-- A second run leaves what the first has left. -/
theorem sameButTimes_again (h : Clean encode c files pairs) (hperm : pairs'.Perm pairs)
    (o o' : Occasion) : SameButTimes (recompile encode c o files pairs).1
      (recompile encode c o' (recompile encode c o files pairs).1 pairs').1 := by
  have hsame := h.sameBut_recompile o
  have hagain : RunLeaves encode c o' pairs (recompile encode c o files pairs).1
      (recompile encode c o' (recompile encode c o files pairs).1 pairs').1 :=
    (((h.remains o).perm hperm).runLeaves o').perm hperm.symm
  have hlater : ∀ pair ∈ pairs, pair.written? encode c o' files = pair.written? encode c o files :=
    fun pair _ => h.written?_occasion pair o o'
  refine (h.runLeaves o).sameButTimes ((h.runLeaves o).again hagain
    (fun _ _ => hsame.locate_eq_ok) hlater fun pair hpair => ?_) hlater
  exact (h.apart o').written?_eq hsame hpair

/-- A second run counts the same pairs. -/
theorem count_again (h : Clean encode c files pairs) (hperm : pairs'.Perm pairs)
    (o o' : Occasion) :
    (recompile encode c o' (recompile encode c o files pairs).1 pairs').2 =
      .ok (pairs.countP fun pair =>
        (files.openRead pair.src).isOk && files.isWritable pair.dst) := by
  have hsame := h.sameBut_recompile o
  rw [((h.remains o).perm hperm).count o', hperm.countP_eq]
  refine congrArg Except.ok (List.countP_congr fun pair hpair => ?_)
  rw [hsame.isWritable_eq, h.isOk_openRead_src hsame hpair]

end Clean

/-- **Recompiling does not depend on the order of the pairs, and once is enough.** Let there be no
cache, let the destinations be different files and no sources, and let each source that can be
opened hold a text that can be expanded; let no path that is opened have the character NUL, and let
the markup that is written have bytes. A run counts the pairs whose source can be opened and whose
destination can be written; exactly these destinations then hold the markup of their source, and
every other file is as it was. In any other order of the pairs, and at any other time, a run counts
as many and leaves the same files; and so does a second run, which comes upon the files that the
first has left. -/
theorem recompile_any_order (h : Clean encode c files pairs) (o : Occasion) :
    let written (pair : WritePair) : Bool :=
      (files.openRead pair.src).isOk && files.isWritable pair.dst
    let files' := (recompile encode c o files pairs).1
    (recompile encode c o files pairs).2 = .ok (pairs.countP written) ∧
    (∀ pair ∈ pairs, (∃ source markup, files.text? pair.src = some source ∧
      c.render source = .ok markup ∧ ∃ bytes, encode markup = some bytes ∧
        files'.bytes? pair.dst = some bytes) ↔ written pair = true) ∧
    (∀ row, (∀ pair ∈ pairs, written pair = true → files.locate pair.dst ≠ .ok row) →
      files'.kindAt row = files.kindAt row) ∧
    ∀ (o' : Occasion) (pairs' : List WritePair), pairs'.Perm pairs →
      (recompile encode c o' files pairs').2 = .ok (pairs.countP written) ∧
      SameButTimes files' (recompile encode c o' files pairs').1 ∧
      (recompile encode c o' files' pairs').2 = .ok (pairs.countP written) ∧
      SameButTimes files' (recompile encode c o' files' pairs').1 := by
  intro written files'
  refine ⟨h.count o, fun pair hpair => ?_, fun row hrow => ?_,
    fun o' pairs' hperm => ⟨?_, ?_, ?_, ?_⟩⟩
  · rw [h.holds_iff o hpair, Bool.and_eq_true]
  · refine h.unchanged o fun pair hpair hread hdst => hrow pair hpair ?_
    rw [Bool.and_eq_true]
    exact ⟨hread, hdst⟩
  · rw [(h.perm hperm).count o', hperm.countP_eq]
  · exact h.sameButTimes_perm hperm o o'
  · exact h.count_again hperm o o'
  · exact h.sameButTimes_again hperm o o'

/-- A source that is not there, a destination that is a directory, and one source with two
destinations; the second run is later and in the reverse order. -/
theorem recompile_any_order_reversed :
    let files : FileTree := .folder "d".toList .nil
      (.file "a".toList { content := encodeUtf8 "ul>li".toList }
        (.file "y".toList { content := encodeUtf8 "old".toList, mode := 0o600 } .nil))
    let path (name : String) : Path := ⟨[], [name.toList]⟩
    let pairs : List WritePair := [⟨path "missing", path "x"⟩, ⟨path "a", path "d"⟩,
      ⟨path "a", path "y"⟩, ⟨path "a", path "z"⟩]
    let later : Occasion := { storeTime := 9 }
    let files' := (recompile .utf8 {} {} files pairs).1
    Clean .utf8 {} files pairs ∧ pairs.reverse.Perm pairs ∧
      (recompile .utf8 {} {} files pairs).2 = .ok 2 ∧
      files'.bytes? (path "z") = some (encodeUtf8 "<ul><li></li></ul>".toList) ∧
      files'.kindAt ["x".toList] = none ∧
      (recompile .utf8 {} later files' pairs.reverse).2 = .ok 2 ∧
      SameButTimes files' (recompile .utf8 {} later files' pairs.reverse).1 := by
  intro files path pairs later files'
  have htext : files.text? (path "a") = some "ul>li".toList := by decide +kernel
  have hrender : Compiler.render {} "ul>li".toList = .ok "<ul><li></li></ul>".toList := by
    decide +kernel
  have hclean : Clean .utf8 {} files pairs := by
    refine ⟨rfl, by decide +kernel, by decide +kernel, fun pair hpair hread => ?_,
      by decide +kernel, by decide +kernel⟩
    rcases List.mem_cons.1 hpair with rfl | hpair
    · have hmissing : (files.openRead (path "missing")).isOk = false := by decide +kernel
      rw [hmissing] at hread
      cases hread
    · have hsrc : ∀ pair ∈ pairs.tail, pair.src = path "a" := by decide +kernel
      exact ⟨_, _, hsrc pair hpair ▸ htext, hrender, fun _ => rfl⟩
  have hperm : pairs.reverse.Perm pairs := List.reverse_perm pairs
  obtain ⟨hcount, hholds, hother, hagain⟩ := recompile_any_order hclean {}
  obtain ⟨-, -, hcount', hsame⟩ := hagain later pairs.reverse hperm
  obtain ⟨source, markup, hsource, hmarkup, bytes, hencode, hbytes⟩ :=
    (hholds ⟨path "a", path "z"⟩ (by decide +kernel)).2 (by decide +kernel)
  obtain rfl := Option.some.inj (hsource.symm.trans htext)
  obtain rfl := Except.ok.inj (hmarkup.symm.trans hrender)
  obtain rfl := Option.some.inj hencode
  exact ⟨hclean, hperm, hcount.trans (by decide +kernel), hbytes,
    (hother _ (by decide +kernel)).trans (by decide +kernel), hcount'.trans (by decide +kernel),
    hsame⟩

/-- A source whose path has the character NUL is not there, and ends the run before a pair that could
be written; in the other order that pair is written. -/
theorem recompile_ended_by_null :
    let files : FileTree := .file ['b'] { content := encodeUtf8 "p".toList } .nil
    let path (name : Text) : Path := ⟨[], [name]⟩
    let pairs : List WritePair :=
      [⟨path ['a', Char.ofNat 0], path ['x']⟩, ⟨path ['b'], path ['y']⟩]
    (pairs.Pairwise fun p q => ¬ files.SameFile p.dst q.dst) ∧
      (∀ p ∈ pairs, ∀ q ∈ pairs, ¬ files.SameFile p.dst q.src) ∧
      files.text? (path ['b']) = some "p".toList ∧
      Compiler.render {} "p".toList = .ok "<p></p>".toList ∧
      files.isWritable (path ['y']) = true ∧
      (∀ pair ∈ pairs, pair.src ≠ path ['b'] → (files.read pair.src).isOk = false) ∧
      (recompile .utf8 {} {} files pairs).2 = .error .nullInPath ∧
      (recompile .utf8 {} {} files pairs).1.bytes? (path ['y']) = none ∧
      (recompile .utf8 {} {} files pairs.reverse).1.bytes? (path ['y']) =
        some (encodeUtf8 "<p></p>".toList) := by
  decide +kernel

end Shorthand
