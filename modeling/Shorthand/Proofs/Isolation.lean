import Shorthand.Proofs.Recompile
import Shorthand.Proofs.Source

/-!
# Pairs beside pairs that fail

What a run over all pairs leaves in the destinations, when no destination is a source or another
destination.

- `WritePair.outcome`: what a pair comes to by itself, `WritePair.written?` or `WritePair.fault?`.
  `expandFile_turn`: what its turn does.
- `recompile_isolated`: a pair that the system refuses holds up no other. Any other fault ends the
  run: a path with the character NUL, a source that is no text or cannot be expanded, and markup that
  has no bytes.

Paths lead to files from the working directory only; absolute ones lead nowhere.
-/

namespace Shorthand

/-! ## What a pair comes to -/

open FileTree

/-- Expansions store nothing in a cache. -/
def Compiler.StoresNothing (c : Compiler) (o : Occasion) : Prop :=
  c.cache = none ∨ o.slow = false

/-- The file that the markup of a source is looked up in, if there is a cache for it. -/
def Compiler.cacheFile? (c : Compiler) (source : Text) : Option Path :=
  match c.cacheFor source none with
  | some (.ok cache) => some (cache.pathFor source)
  | _ => none

/-- The bytes of the markup of a source, or why there are none. -/
def Compiler.markupBytes (c : Compiler) (encode : Encoder) (o : Occasion) (files : FileTree)
    (source : Text) : Except Fault (List UInt8) :=
  match (c.expand o files source).output with
  | .error fault => .error fault
  | .ok markup =>
    match encode markup with
    | none => .error .notEncodable
    | some bytes => .ok bytes

/-- What a pair comes to by itself. It is passed over and comes to nothing when the system refuses
its source or its destination; else there are the bytes that its destination is to hold, or the
fault that ends the run. -/
def WritePair.outcome (pair : WritePair) (encode : Encoder) (c : Compiler) (o : Occasion)
    (files : FileTree) : Option (Except Fault (List UInt8)) :=
  if pair.src.hasNull then some (.error .nullInPath)
  else
    (files.openRead pair.src).toOption.bind fun f =>
      match f.text? with
      | none => some (.error .notUtf8)
      | some source =>
        if pair.dst.hasNull then some (.error .nullInPath)
        else if files.isWritable pair.dst then some (c.markupBytes encode o files source)
        else none

/-- The bytes that a pair's destination is to hold. -/
def WritePair.written? (pair : WritePair) (encode : Encoder) (c : Compiler) (o : Occasion)
    (files : FileTree) : Option (List UInt8) :=
  (pair.outcome encode c o files).bind Except.toOption

/-- The fault by which a pair ends the run. -/
def WritePair.fault? (pair : WritePair) (encode : Encoder) (c : Compiler) (o : Occasion)
    (files : FileTree) : Option Fault :=
  match pair.outcome encode c o files with
  | some (.error fault) => some fault
  | _ => none

variable {encode : Encoder} {c : Compiler} {o : Occasion} {files files' : FileTree}
  {pair : WritePair} {pairs rest : List WritePair}

theorem Compiler.markupBytes_eq_ok {source : Text} {bytes : List UInt8} :
    c.markupBytes encode o files source = .ok bytes ↔
      ∃ markup, (c.expand o files source).output = .ok markup ∧ encode markup = some bytes := by
  rw [markupBytes]
  cases (c.expand o files source).output with
  | error fault => simp
  | ok markup => cases hbytes : encode markup <;> simp [hbytes]

namespace WritePair

theorem written?_eq_some {bytes : List UInt8} :
    pair.written? encode c o files = some bytes ↔
      pair.outcome encode c o files = some (.ok bytes) := by
  simp only [written?, Option.bind_eq_some_iff, toOption_eq_some, exists_eq_right]

theorem fault?_eq_some {fault : Fault} :
    pair.fault? encode c o files = some fault ↔
      pair.outcome encode c o files = some (.error fault) := by
  rw [fault?]
  split <;> simp_all

theorem outcome_of_openRead {f : File} (hread : files.openRead pair.src = .ok f) :
    pair.outcome encode c o files =
      match f.text? with
      | none => some (.error .notUtf8)
      | some source =>
        if pair.dst.hasNull then some (.error .nullInPath)
        else if files.isWritable pair.dst then some (c.markupBytes encode o files source)
        else none := by
  have hnull : pair.src.hasNull = false := (openRead_eq_ok.1 hread).1.1
  rw [outcome, if_neg (by simp [hnull]), hread]
  rfl

/-- A pair whose source is read and whose destination can be written comes to its markup. -/
theorem outcome_of_isWritable {source : Text} (htext : files.text? pair.src = some source)
    (hwritable : files.isWritable pair.dst = true) :
    pair.outcome encode c o files = some (c.markupBytes encode o files source) := by
  obtain ⟨f, hread, hf⟩ := text?_eq_some.1 htext
  have hnull : pair.dst.hasNull = false := (isWritable_iff.1 hwritable).1.1
  simp [outcome_of_openRead hread, hf, hnull, hwritable]

/-- A pair that is written has a source that can be read and expanded, markup that has bytes and a
destination that can be written. -/
theorem exists_source_of_written? {bytes : List UInt8}
    (h : pair.written? encode c o files = some bytes) : ∃ source markup,
      files.text? pair.src = some source ∧ (c.expand o files source).output = .ok markup ∧
        encode markup = some bytes ∧ files.isWritable pair.dst = true := by
  rw [written?_eq_some, outcome] at h
  split at h
  · cases h
  · obtain ⟨f, hread, h⟩ := Option.bind_eq_some_iff.1 h
    split at h
    · cases h
    · rename_i source hf
      split at h
      · cases h
      · split at h
        · obtain ⟨markup, houtput, hbytes⟩ := Compiler.markupBytes_eq_ok.1 (Option.some.inj h)
          exact ⟨source, markup, text?_eq_some.2 ⟨f, toOption_eq_some.1 hread, hf⟩, houtput,
            hbytes, ‹_›⟩
        · cases h

end WritePair

theorem Compiler.files_expand (h : c.StoresNothing o) (files : FileTree) (source : Text)
    (call : Option Resolver) : (c.expand o files source call).files = files := by
  rw [Compiler.expand]
  split
  · rfl
  · rfl
  · rename_i cache hcache
    split
    · rfl
    · split
      · rfl
      · have hslow : o.slow = false := by
          refine h.resolve_left fun hnone => ?_
          rw [cacheFor, hnone] at hcache
          split at hcache <;> cases hcache
        rw [hslow]
        rfl

/-- The output of an expansion depends on the files by the one file of the cache alone. -/
theorem Compiler.output_expand_congr {source : Text}
    (h : ∀ path ∈ c.cacheFile? source, (files'.read path).toOption = (files.read path).toOption) :
    (c.expand o files' source).output = (c.expand o files source).output := by
  rw [Compiler.expand, Compiler.expand]
  cases hcache : c.cacheFor source none with
  | none => rfl
  | some opened =>
    cases opened with
    | error fault => rfl
    | ok cache =>
      have hread := h (cache.pathFor source) (by rw [cacheFile?, hcache]; rfl)
      have hlookup : cache.lookup o.lookupTime files' source =
          cache.lookup o.lookupTime files source := by
        rw [Cache.lookup, Cache.lookup]
        cases hfile : files.read (cache.pathFor source) <;>
          cases hfile' : files'.read (cache.pathFor source) <;>
          simp_all [Except.toOption]
      simp only [hlookup]
      split
      · rfl
      · split
        · rfl
        · split <;> rfl

/-- What the turn of a pair does. -/
inductive Turn (encode : Encoder) (c : Compiler) (o : Occasion) (files : FileTree)
    (pair : WritePair) : FileTree × Except FileFailure Unit → Prop
  /-- The pair is passed over, and nothing is changed. -/
  | passed (error : FileError) (houtcome : pair.outcome encode c o files = none) :
      Turn encode c o files pair (files, .error (.file error))
  /-- The pair ends the run. -/
  | ended (files' : FileTree) (fault : Fault)
      (houtcome : pair.outcome encode c o files = some (.error fault))
      (hsame : SameBut (files.locate pair.dst = .ok ·) files files') :
      Turn encode c o files pair (files', .error (.fault fault))
  /-- The markup is written. -/
  | written (files' : FileTree) (bytes : List UInt8)
      (houtcome : pair.outcome encode c o files = some (.ok bytes))
      (hsame : SameBut (files.locate pair.dst = .ok ·) files files')
      (hbytes : files'.bytes? pair.dst = some bytes) :
      Turn encode c o files pair (files', .ok ())

/-- A pair whose source is not opened, or holds no text, changes nothing. -/
theorem expandFile_turn_of_none (htext : files.text? pair.src = none) :
    Turn encode c o files pair (expandFile encode c o files pair) := by
  cases hread : files.openRead pair.src with
  | error failure =>
    simp only [expandFile, hread]
    cases failure with
    | file e =>
      have hnull : pair.src.hasNull = false := hasNull_of_opening_eq_file hread
      exact .passed e (by rw [WritePair.outcome, if_neg (by simp [hnull]), hread]; rfl)
    | fault fault =>
      obtain ⟨hnull, rfl⟩ := opening_eq_fault.1 hread
      exact .ended files _ (by rw [WritePair.outcome, if_pos hnull]) (.refl _ files)
  | ok f =>
    have hf : f.text? = none := by rwa [text?, hread] at htext
    simp only [expandFile, hread, hf]
    exact .ended files _ (by rw [WritePair.outcome_of_openRead hread, hf]) (.refl _ files)

/-- The turn of a pair, when its destination is not where the markup of its source is looked up. -/
theorem expandFile_turn (hstore : c.StoresNothing o)
    (hcached : ∀ source ∈ files.text? pair.src, ∀ path ∈ c.cacheFile? source,
      ¬ files.SameFile pair.dst path) :
    Turn encode c o files pair (expandFile encode c o files pair) := by
  cases htext : files.text? pair.src with
  | none => exact expandFile_turn_of_none htext
  | some source =>
    obtain ⟨f, hread, hf⟩ := text?_eq_some.1 htext
    simp only [expandFile, hread, hf]
    cases hopen : files.openWrite pair.dst fun f =>
        { f with content := [], stamp := o.storeTime } with
    | error failure =>
      have hnot : files.isWritable pair.dst = false := isWritable_of_openWrite_error hopen
      cases failure with
      | file e =>
        have hnull : pair.dst.hasNull = false := hasNull_of_opening_eq_file hopen
        exact .passed e (by simp [WritePair.outcome_of_openRead hread, hf, hnull, hnot])
      | fault fault =>
        obtain ⟨hnull, rfl⟩ := opening_eq_fault.1 hopen
        exact .ended files _ (by simp [WritePair.outcome_of_openRead hread, hf, hnull])
          (.refl _ files)
    | ok emptied =>
      have hwritable : files.isWritable pair.dst = true := isWritable_of_openWrite hopen
      obtain ⟨htakes, hwrite⟩ := openWrite_eq_ok.1 hopen
      have hsame : SameBut (files.locate pair.dst = .ok ·) files emptied := .of_write hwrite
      have houtput : (c.expand o emptied source).output = (c.expand o files source).output :=
        Compiler.output_expand_congr fun path hpath =>
          hsame.toOption_read (not_locate_of_not_sameFile (hcached source htext path hpath))
      have houtcome : pair.outcome encode c o files = some (c.markupBytes encode o files source) :=
        WritePair.outcome_of_isWritable htext hwritable
      rw [Compiler.markupBytes] at houtcome
      cases hout : (c.expand o files source).output with
      | error fault =>
        simp only [houtput, hout, Compiler.files_expand hstore] at houtcome ⊢
        exact .ended emptied fault houtcome hsame
      | ok markup =>
        simp only [houtput, hout, Compiler.files_expand hstore] at houtcome ⊢
        cases hbytes : encode markup with
        | none => exact .ended emptied _ (by rw [houtcome, hbytes]) hsame
        | some bytes =>
          have hstill : emptied.isWritable pair.dst = true :=
            (hsame.isWritable_eq pair.dst).trans hwritable
          obtain ⟨written, hreopen⟩ := exists_openWrite hstill fun f => { f with content := bytes }
          have hwritten := (openWrite_eq_ok.1 hreopen).2
          have hcontent : written.bytes? pair.dst = some bytes := by
            obtain ⟨old, hold⟩ := openRead_of_openWrite hreopen
            exact bytes?_of_openRead hold
          simp only [hwritten]
          exact .written written bytes (by rw [houtcome, hbytes])
            (hsame.trans ((SameBut.of_write hwritten).mono fun row => hsame.locate_eq_ok.1))
            hcontent

/-! ## Pairs apart -/

/-- No destination is another one, a source, or a file that the markup of a source is looked up in;
and nothing is stored in a cache. -/
structure Apart (c : Compiler) (o : Occasion) (files : FileTree) (pairs : List WritePair) :
    Prop where
  store : c.StoresNothing o
  distinct : pairs.Pairwise fun p q => ¬ files.SameFile p.dst q.dst
  source : ∀ p ∈ pairs, ∀ q ∈ pairs, ¬ files.SameFile p.dst q.src
  cached : ∀ p ∈ pairs, ∀ q ∈ pairs, ∀ source ∈ files.text? q.src, ∀ path ∈ c.cacheFile? source,
    ¬ files.SameFile p.dst path

/-- What is the same but at the first destination is the same but at the destinations. -/
theorem FileTree.SameBut.of_first (h : SameBut (files.locate pair.dst = .ok ·) files files') :
    SameBut (fun row => ∃ p ∈ pair :: rest, files.locate p.dst = .ok row) files files' :=
  h.mono fun _ hrow => ⟨pair, List.mem_cons_self, hrow⟩

namespace Apart

/-- Without a cache it is enough that the destinations are different files and no sources. -/
theorem of_uncached (hcache : c.cache = none)
    (hdistinct : pairs.Pairwise fun p q => ¬ files.SameFile p.dst q.dst)
    (hsource : ∀ p ∈ pairs, ∀ q ∈ pairs, ¬ files.SameFile p.dst q.src) :
    Apart c o files pairs := by
  refine ⟨.inl hcache, hdistinct, hsource, fun p _ q _ source _ path hpath => ?_⟩
  have hfor : c.cacheFor source none = none := by simp [Compiler.cacheFor, hcache]
  rw [Compiler.cacheFile?, hfor] at hpath
  cases hpath

theorem turn (h : Apart c o files (pair :: rest)) :
    Turn encode c o files pair (expandFile encode c o files pair) :=
  expandFile_turn h.store (h.cached pair List.mem_cons_self pair List.mem_cons_self)

theorem of_cons (h : Apart c o files (pair :: rest)) : Apart c o files rest where
  store := h.store
  distinct := h.distinct.of_cons
  source p hp q hq := h.source p (List.mem_cons_of_mem _ hp) q (List.mem_cons_of_mem _ hq)
  cached p hp q hq := h.cached p (List.mem_cons_of_mem _ hp) q (List.mem_cons_of_mem _ hq)

/-! What is the same when destinations have changed. -/

section Changed

variable {q : WritePair} (h : Apart c o files pairs)
  (hsame : SameBut (fun row => ∃ p ∈ pairs, files.locate p.dst = .ok row) files files')
include h hsame

theorem toOption_openRead_src (hq : q ∈ pairs) :
    (files'.openRead q.src).toOption = (files.openRead q.src).toOption :=
  hsame.toOption_openRead fun _ hrow ⟨p, hp, hdst⟩ =>
    h.source p hp q hq (sameFile_iff.2 ⟨_, hdst, hrow⟩)

theorem text?_src (hq : q ∈ pairs) : files'.text? q.src = files.text? q.src := by
  rw [text?, text?, h.toOption_openRead_src hsame hq]

theorem output_expand (hq : q ∈ pairs) {source : Text} (htext : files.text? q.src = some source) :
    (c.expand o files' source).output = (c.expand o files source).output :=
  Compiler.output_expand_congr fun path hpath =>
    hsame.toOption_read fun _ hrow ⟨p, hp, hdst⟩ =>
      h.cached p hp q hq source htext path hpath (sameFile_iff.2 ⟨_, hdst, hrow⟩)

theorem outcome_eq (hq : q ∈ pairs) :
    q.outcome encode c o files' = q.outcome encode c o files := by
  cases hread : files.openRead q.src with
  | error failure =>
    rw [WritePair.outcome, WritePair.outcome, h.toOption_openRead_src hsame hq, hread]
    rfl
  | ok f =>
    have hread' : files'.openRead q.src = .ok f :=
      toOption_eq_some.1 (by rw [h.toOption_openRead_src hsame hq, hread]; rfl)
    rw [WritePair.outcome_of_openRead hread, WritePair.outcome_of_openRead hread',
      hsame.isWritable_eq]
    cases hf : f.text? with
    | none => rfl
    | some source =>
      have htext : files.text? q.src = some source := text?_eq_some.2 ⟨f, hread, hf⟩
      simp only [Compiler.markupBytes, h.output_expand hsame hq htext]

theorem written?_eq (hq : q ∈ pairs) :
    q.written? encode c o files' = q.written? encode c o files := by
  rw [WritePair.written?, WritePair.written?, h.outcome_eq hsame hq]

theorem fault?_eq (hq : q ∈ pairs) :
    q.fault? encode c o files' = q.fault? encode c o files := by
  rw [WritePair.fault?, WritePair.fault?, h.outcome_eq hsame hq]

theorem of_sameBut : Apart c o files' pairs where
  store := h.store
  distinct := h.distinct.imp fun hne => mt hsame.sameFile_iff.1 hne
  source p hp q hq := mt hsame.sameFile_iff.1 (h.source p hp q hq)
  cached p hp q hq source htext path hpath := by
    rw [h.text?_src hsame hq] at htext
    exact mt hsame.sameFile_iff.1 (h.cached p hp q hq source htext path hpath)

end Changed

/-! What the turn of the first pair leaves to the others. -/

variable {q : WritePair} (h : Apart c o files (pair :: rest))
  (hsame : SameBut (files.locate pair.dst = .ok ·) files files')
include h hsame

theorem tail : Apart c o files' rest :=
  (h.of_sameBut hsame.of_first).of_cons

/-- Pairs that have no fault still have none. -/
theorem fault?_tail {qs : List WritePair} (hqs : qs ⊆ rest)
    (hfault : ∀ q ∈ qs, q.fault? encode c o files = none) :
    ∀ q ∈ qs, q.fault? encode c o files' = none := fun q hq => by
  rw [h.fault?_eq hsame.of_first (List.mem_cons_of_mem _ (hqs hq))]
  exact hfault q hq

end Apart

/-! ## Runs -/

/-- A run ends at its first pair, or goes on to the others from the files that the pair leaves. -/
theorem Apart.recompile_cons (h : Apart c o files (pair :: rest)) (encode : Encoder) :
    ∃ files', SameBut (files.locate pair.dst = .ok ·) files files' ∧
      ((∃ fault, pair.fault? encode c o files = some fault ∧
          recompile encode c o files (pair :: rest) = (files', .error fault)) ∨
        (pair.fault? encode c o files = none ∧
          (∀ bytes ∈ pair.written? encode c o files, files'.bytes? pair.dst = some bytes) ∧
          recompile encode c o files (pair :: rest) = ((recompile encode c o files' rest).1,
            (recompile encode c o files' rest).2.map
              (· + if (pair.written? encode c o files).isSome then 1 else 0)))) := by
  have hturn : Turn encode c o files pair (expandFile encode c o files pair) := h.turn
  rw [recompile, WritePair.fault?, WritePair.written?]
  generalize expandFile encode c o files pair = out at hturn
  cases hturn with
  | passed error houtcome =>
    refine ⟨files, .refl _ files, .inr ?_⟩
    simp only [houtcome]
    refine ⟨trivial, by simp, ?_⟩
    cases hrest : (recompile encode c o files rest).2 <;> simp [← hrest, Except.map]
  | ended files' fault houtcome hsame =>
    exact ⟨files', hsame, .inl ⟨fault, by rw [houtcome], rfl⟩⟩
  | written files' bytes houtcome hsame hbytes =>
    refine ⟨files', hsame, .inr ?_⟩
    simp only [houtcome]
    refine ⟨trivial, ?_, rfl⟩
    rintro _ ⟨⟩
    exact hbytes

/-- A run changes nothing but the destinations. -/
theorem Apart.sameBut_recompile (h : Apart c o files pairs) :
    SameBut (fun row => ∃ pair ∈ pairs, files.locate pair.dst = .ok row) files
      (recompile encode c o files pairs).1 := by
  induction pairs generalizing files with
  | nil => exact .refl _ files
  | cons pair rest ih =>
    obtain ⟨files', hsame, ⟨fault, -, hrun⟩ | ⟨-, -, hrun⟩⟩ := h.recompile_cons encode
    · rw [hrun]
      exact hsame.of_first
    · rw [hrun]
      refine hsame.of_first.trans ((ih (h.tail hsame)).mono ?_)
      rintro row ⟨q, hq, hrow⟩
      exact ⟨q, List.mem_cons_of_mem _ hq, hsame.locate_eq_ok.1 hrow⟩

/-- The run counts the pairs that are written, unless one ends it. -/
theorem Apart.recompile_count (h : Apart c o files pairs)
    (hfault : ∀ pair ∈ pairs, pair.fault? encode c o files = none) :
    (recompile encode c o files pairs).2 =
      .ok (pairs.countP fun pair => (pair.written? encode c o files).isSome) := by
  induction pairs generalizing files with
  | nil => rfl
  | cons pair rest ih =>
    obtain ⟨files', hsame, ⟨fault, hend, -⟩ | ⟨-, -, hrun⟩⟩ := h.recompile_cons encode
    · rw [hfault pair List.mem_cons_self] at hend
      cases hend
    · have hrest : ∀ q ∈ rest, q.fault? encode c o files' = none :=
        h.fault?_tail hsame (List.Subset.refl rest) fun q hq =>
          hfault q (List.mem_cons_of_mem _ hq)
      have hcount : rest.countP (fun q => (q.written? encode c o files').isSome) =
          rest.countP fun q => (q.written? encode c o files).isSome :=
        List.countP_congr fun q hq => by
          rw [h.written?_eq hsame.of_first (List.mem_cons_of_mem _ hq)]
      rw [hrun, ih (h.tail hsame) hrest, hcount, List.countP_cons]
      rfl

section

variable {before after : List WritePair} (h : Apart c o files (before ++ pair :: after))
include h

/-- A pair that a run comes to is written. -/
theorem Apart.bytes?_of_reached (hbefore : ∀ p ∈ before, p.fault? encode c o files = none)
    {bytes : List UInt8} (hwritten : pair.written? encode c o files = some bytes) :
    (recompile encode c o files (before ++ pair :: after)).1.bytes? pair.dst = some bytes := by
  induction before generalizing files with
  | nil =>
    rw [List.nil_append] at h ⊢
    obtain ⟨files₁, hsame, ⟨fault, hend, -⟩ | ⟨-, hbytes, hrun⟩⟩ :=
      h.recompile_cons encode
    · rw [WritePair.fault?_eq_some] at hend
      rw [WritePair.written?_eq_some, hend] at hwritten
      cases hwritten
    · -- No later pair has the destination of this one.
      have hlater : (recompile encode c o files₁ after).1.bytes? pair.dst =
          files₁.bytes? pair.dst := by
        refine (h.tail hsame).sameBut_recompile.bytes?_eq fun row hrow => ?_
        rintro ⟨q, hq, hother⟩
        refine List.rel_of_pairwise_cons h.distinct hq (sameFile_iff.2 ⟨row, ?_, ?_⟩)
        · exact hsame.locate_eq_ok.1 hrow
        · exact hsame.locate_eq_ok.1 hother
      rw [hrun, hlater, hbytes bytes hwritten]
  | cons p before ih =>
    rw [List.cons_append] at h ⊢
    obtain ⟨files₁, hsame, ⟨fault, hend, -⟩ | ⟨-, -, hrun⟩⟩ := h.recompile_cons encode
    · rw [hbefore p List.mem_cons_self] at hend
      cases hend
    · have hbefore' : ∀ q ∈ before, q.fault? encode c o files₁ = none :=
        h.fault?_tail hsame (List.subset_append_left _ _) fun q hq =>
          hbefore q (List.mem_cons_of_mem _ hq)
      have hwritten' : pair.written? encode c o files₁ = some bytes := by
        rwa [h.written?_eq hsame.of_first (by simp)]
      rw [hrun]
      exact ih (h.tail hsame) hbefore' hwritten'

/-- The first pair with a fault ends the run by it. -/
theorem Apart.recompile_eq_error (hbefore : ∀ p ∈ before, p.fault? encode c o files = none)
    {fault : Fault} (hfault : pair.fault? encode c o files = some fault) :
    (recompile encode c o files (before ++ pair :: after)).2 = .error fault := by
  induction before generalizing files with
  | nil =>
    rw [List.nil_append] at h ⊢
    obtain ⟨files₁, hsame, ⟨fault', hend, hrun⟩ | ⟨hgoes, -, -⟩⟩ :=
      h.recompile_cons encode
    · rw [hfault, Option.some.injEq] at hend
      rw [hrun, hend]
    · rw [hfault] at hgoes
      cases hgoes
  | cons p before ih =>
    rw [List.cons_append] at h ⊢
    obtain ⟨files₁, hsame, ⟨fault', hend, -⟩ | ⟨-, -, hrun⟩⟩ := h.recompile_cons encode
    · rw [hbefore p List.mem_cons_self] at hend
      cases hend
    · have hbefore' : ∀ q ∈ before, q.fault? encode c o files₁ = none :=
        h.fault?_tail hsame (List.subset_append_left _ _) fun q hq =>
          hbefore q (List.mem_cons_of_mem _ hq)
      have hfault' : pair.fault? encode c o files₁ = some fault := by
        rwa [h.fault?_eq hsame.of_first (by simp)]
      rw [hrun, ih (h.tail hsame) hbefore' hfault']
      rfl

end

/-- No pair ends a run that counts its pairs. -/
theorem Apart.fault?_of_ok (h : Apart c o files pairs) {count : Nat}
    (hcount : (recompile encode c o files pairs).2 = .ok count) :
    ∀ pair ∈ pairs, pair.fault? encode c o files = none := by
  cases hfirst : pairs.find? fun pair => (pair.fault? encode c o files).isSome with
  | none => simpa using hfirst
  | some pair =>
    obtain ⟨hfault, before, after, rfl, hbefore⟩ := List.find?_eq_some_iff_append.1 hfirst
    obtain ⟨fault, hfault⟩ := Option.isSome_iff_exists.1 hfault
    rw [h.recompile_eq_error (fun p hp => by simpa using hbefore p hp) hfault] at hcount
    cases hcount

/-- Markup that has no bytes ends the run too, and leaves its destination empty. -/
example :
    let files : FileTree := .file "b".toList { content := encodeUtf8 "p".toList } .nil
    let path (name : String) : Path := ⟨[], [name.toList]⟩
    let run := recompile (fun _ => none) {} {} files [⟨path "b", path "y"⟩]
    run.2 = .error .notEncodable ∧ run.1.bytes? (path "y") = some [] := by
  decide +kernel

end Shorthand
