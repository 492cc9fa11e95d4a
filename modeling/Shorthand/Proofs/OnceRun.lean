import Mathlib.Data.List.Induction
import Mathlib.Data.List.Nodup
import Mathlib.Data.List.Pairwise
import Shorthand.Proofs.Isolation
import Shorthand.Standard

/-!
# Runs over all pairs, once

What a run with `--once` has written when its exit code is zero.

- `Settings.listedPairs`: the pairs as the write list has them, repeated sources included.
  `mem_mergePairs`: of the pairs with one source, the last one is recompiled.
- `CommandLine.prepare_eq_ok`, `recompileOnce_eq_zero`: what has been done when a run says that all
  is well.
- `run_once_wrote`: after the exit code zero every listed pair is written, unless a later pair has
  its source; then its destination is as it was.

The reader of the settings document and the encoder are any that there may be.
-/

namespace Shorthand

namespace Settings

/-! ## Pairs with one source -/

/-- No two pairs have one source. -/
abbrev DistinctSources (pairs : List WritePair) : Prop :=
  pairs.Pairwise fun p q => p.src ≠ q.src

variable {pair q : WritePair} {pairs listed : List WritePair}

theorem mem_putPair (h : DistinctSources pairs) :
    q ∈ putPair pair pairs ↔ q = pair ∨ q ∈ pairs ∧ q.src ≠ pair.src := by
  induction pairs with
  | nil => simp [putPair]
  | cons p rest ih =>
    rw [putPair]
    by_cases hsrc : p.src = pair.src
    · have hrest : ∀ r ∈ rest, r.src ≠ pair.src := fun r hr hsame =>
        List.rel_of_pairwise_cons h hr (hsrc.trans hsame.symm)
      rw [if_pos hsrc, List.mem_cons, List.mem_cons]
      refine or_congr_right ⟨fun hq => ⟨.inr hq, hrest q hq⟩, ?_⟩
      rintro ⟨rfl | hq, hne⟩
      · exact absurd hsrc hne
      · exact hq
    · rw [if_neg hsrc, List.mem_cons, List.mem_cons, ih h.of_cons]
      constructor
      · rintro (rfl | rfl | ⟨hq, hne⟩)
        · exact .inr ⟨.inl rfl, hsrc⟩
        · exact .inl rfl
        · exact .inr ⟨.inr hq, hne⟩
      · rintro (rfl | ⟨rfl | hq, hne⟩)
        · exact .inr (.inl rfl)
        · exact .inl rfl
        · exact .inr (.inr ⟨hq, hne⟩)

theorem DistinctSources.putPair (h : DistinctSources pairs) (pair : WritePair) :
    DistinctSources (putPair pair pairs) := by
  induction pairs with
  | nil => exact List.pairwise_singleton _ _
  | cons p rest ih =>
    obtain ⟨hp, hrest⟩ := List.pairwise_cons.1 h
    rw [Settings.putPair]
    by_cases hsrc : p.src = pair.src
    · rw [if_pos hsrc]
      exact List.pairwise_cons.2 ⟨fun r hr => hsrc ▸ hp r hr, hrest⟩
    · rw [if_neg hsrc]
      refine List.pairwise_cons.2 ⟨fun r hr => ?_, ih hrest⟩
      rcases (mem_putPair hrest).1 hr with rfl | ⟨hr, -⟩
      · exact hsrc
      · exact hp r hr

/-- The pairs that are recompiled: of those with one source the last, at the place of the first. -/
def mergePairs (listed : List WritePair) : List WritePair :=
  listed.foldl (fun pairs pair => putPair pair pairs) []

theorem mergePairs_concat (listed : List WritePair) (pair : WritePair) :
    mergePairs (listed ++ [pair]) = putPair pair (mergePairs listed) := by
  rw [mergePairs, List.foldl_append]
  rfl

theorem distinctSources_mergePairs (listed : List WritePair) :
    DistinctSources (mergePairs listed) := by
  induction listed using List.reverseRecOn with
  | nil => exact .nil
  | append_singleton listed pair ih =>
    rw [mergePairs_concat]
    exact ih.putPair pair

/-- The pairs that are recompiled are the listed ones after which their source is not listed. -/
theorem mem_mergePairs : q ∈ mergePairs listed ↔
    ∃ before after, listed = before ++ q :: after ∧ ∀ r ∈ after, r.src ≠ q.src := by
  induction listed using List.reverseRecOn with
  | nil => simp [mergePairs]
  | append_singleton listed pair ih =>
    rw [mergePairs_concat, mem_putPair (distinctSources_mergePairs listed), ih]
    constructor
    · rintro (rfl | ⟨⟨before, after, rfl, hafter⟩, hne⟩)
      · exact ⟨listed, [], rfl, by simp⟩
      · refine ⟨before, after ++ [pair], by simp, fun r hr => ?_⟩
        rcases List.mem_append.1 hr with hr | hr
        · exact hafter r hr
        · rw [List.mem_singleton.1 hr]
          exact hne.symm
    · rintro ⟨before, after, hlisted, hafter⟩
      rcases List.eq_nil_or_concat after with rfl | ⟨after, last, rfl⟩
      · obtain ⟨-, hlast⟩ := List.append_inj' hlisted rfl
        exact .inl (List.head_eq_of_cons_eq hlast).symm
      · rw [List.concat_eq_append] at hlisted hafter
        have hsplit : listed ++ [pair] = (before ++ q :: after) ++ [last] := by simpa using hlisted
        obtain ⟨rfl, hlast⟩ := List.append_inj' hsplit rfl
        obtain rfl := List.head_eq_of_cons_eq hlast
        refine .inr ⟨⟨before, after, rfl, fun r hr => hafter r (List.mem_append_left _ hr)⟩, ?_⟩
        exact (hafter pair (by simp)).symm

theorem mem_of_mem_mergePairs (h : q ∈ mergePairs listed) : q ∈ listed := by
  obtain ⟨before, after, rfl, -⟩ := mem_mergePairs.1 h
  simp

/-- A relation between any two listed pairs is one between any two that are recompiled. -/
theorem pairwise_mergePairs {R : WritePair → WritePair → Prop} [Std.Symm R]
    (h : listed.Pairwise R) : (mergePairs listed).Pairwise R := by
  have hnodup : (mergePairs listed).Nodup :=
    (distinctSources_mergePairs listed).imp fun hne hsame => hne (congrArg WritePair.src hsame)
  refine hnodup.pairwise_of_forall_ne fun p hp q hq hne => ?_
  exact h.forall (mem_of_mem_mergePairs hp) (mem_of_mem_mergePairs hq) hne

/-- The pairs as the write list has them. -/
def listedPairs (s : Settings) : Except Fault (List WritePair) := do
  (← itemsOf (← s.require "write")).mapM pairOf

theorem foldlM_putPair (items : List Value) (before : List WritePair) :
    items.foldlM (fun pairs item => return Settings.putPair (← pairOf item) pairs) before =
      (·.foldl (fun pairs pair => Settings.putPair pair pairs) before) <$> items.mapM pairOf := by
  induction items generalizing before with
  | nil => rfl
  | cons item rest ih =>
    rw [List.foldlM_cons, List.mapM_cons]
    cases pairOf item with
    | error fault => rfl
    | ok pair =>
      simp only [ok_bind, pure_bind, ih]
      cases rest.mapM pairOf <;> rfl

theorem writePairs_eq (s : Settings) : s.writePairs = mergePairs <$> s.listedPairs := by
  rw [writePairs, listedPairs]
  cases s.require "write" with
  | error fault => rfl
  | ok v =>
    simp only [ok_bind]
    cases itemsOf v with
    | error fault => rfl
    | ok items => exact foldlM_putPair items []

end Settings

/-! ## Runs that say all is well -/

namespace CommandLine

open Settings

variable {around : Surroundings} {files : FileTree} {config : Text} {w : Watch} {s : Session}

/-- What has been made of a settings file that can be used. -/
theorem prepare_eq_ok (h : prepare around files config = .ok w) :
    ∃ settings, Settings.load around.read files config = .ok settings ∧
      settings.watched files = .ok w.others ∧ settings.writePairs = .ok w.pairs ∧
      settings.compiler files = .ok w.compiler ∧ w.encode = around.encode := by
  obtain ⟨settings, hload, h⟩ := bind_eq_ok h
  obtain ⟨others, hwatched, h⟩ := bind_eq_ok h
  obtain ⟨pairs, hpairs, h⟩ := bind_eq_ok h
  obtain ⟨compiler, hcompiler, h⟩ := bind_eq_ok h
  cases h
  exact ⟨settings, hload, hwatched, hpairs, hcompiler, rfl⟩

/-- The exit code is zero when the pairs were all counted. -/
theorem recompileOnce_eq_zero (h : (recompileOnce around config s).2 = .returned 0) :
    ∃ w, prepare around s.files config = .ok w ∧
      recompile w.encode w.compiler Watch.occasion s.files w.pairs =
        ((recompileOnce around config s).1.files, .ok w.pairs.length) := by
  rw [recompileOnce] at h ⊢
  cases hprepare : prepare around s.files config with
  | error fault =>
    rw [hprepare] at h
    cases h
  | ok w =>
    simp only [hprepare] at h ⊢
    refine ⟨w, rfl, ?_⟩
    cases hrun : recompile w.encode w.compiler Watch.occasion s.files w.pairs with
    | mk files count =>
      rw [hrun] at h
      cases count with
      | error fault => cases h
      | ok count =>
        by_cases hcount : count = w.pairs.length
        · rw [hcount]
        · simp [hcount] at h

/-- With a path and no `--expand`, all pairs are recompiled once or watched. -/
theorem run_of_config {arguments : List Text} {a : Arguments}
    (hparse : Arguments.parse arguments = .ok a) (hexpand : a.expand = none)
    (hconfig : a.config = some config) (hne : config ≠ []) :
    run arguments around s =
      if a.once then ((recompileOnce around config s).1.snapshot, (recompileOnce around config s).2)
      else ((watch around config around.sleeps s).1.snapshot,
        (watch around config around.sleeps s).2) := by
  have hsome : a.config.filter (!·.isEmpty) = some config := by
    rw [hconfig, Option.filter_some]
    cases config with
    | nil => exact absurd rfl hne
    | cons c rest => rfl
  rw [run, hparse]
  simp only [dispatch, hexpand, hsome]
  cases a.once <;> rfl

end CommandLine

/-! ## Pairs of a run that counted all -/

open FileTree Settings

variable {encode : Encoder} {c : Compiler} {o : Occasion} {files : FileTree} {pair : WritePair}
  {pairs listed : List WritePair}

/-- A run that counts as many pairs as there are has written them all. -/
theorem Apart.written_of_length (h : Apart c o files pairs)
    (hall : (recompile encode c o files pairs).2 = .ok pairs.length) (hpair : pair ∈ pairs) :
    ∃ bytes, pair.written? encode c o files = some bytes ∧
      (recompile encode c o files pairs).1.bytes? pair.dst = some bytes := by
  have hfault := h.fault?_of_ok hall
  have hcount : pairs.countP (fun q => (q.written? encode c o files).isSome) = pairs.length :=
    (Except.ok.inj (hall.symm.trans (h.recompile_count hfault))).symm
  obtain ⟨bytes, hbytes⟩ := Option.isSome_iff_exists.1 (List.countP_eq_length.1 hcount pair hpair)
  obtain ⟨before, after, rfl⟩ := List.append_of_mem hpair
  refine ⟨bytes, hbytes, h.bytes?_of_reached (fun p hp => ?_) hbytes⟩
  exact hfault p (List.mem_append_left _ hp)

/-- Listed pairs whose destinations are no sources and all different are apart when merged. -/
theorem apart_mergePairs (hcache : c.cache = none)
    (hdistinct : listed.Pairwise fun p q => ¬ files.SameFile p.dst q.dst)
    (hsource : ∀ p ∈ listed, ∀ q ∈ listed, ¬ files.SameFile p.dst q.src) :
    Apart c o files (mergePairs listed) := by
  have : Std.Symm fun p q : WritePair => ¬ files.SameFile p.dst q.dst :=
    ⟨fun p q hne hsame => hne (SameFile.symm hsame)⟩
  refine .of_uncached hcache (pairwise_mergePairs hdistinct) fun p hp q hq => ?_
  exact hsource p (mem_of_mem_mergePairs hp) q (mem_of_mem_mergePairs hq)

/-- The destination of a pair is not one of a merged pair when its source is listed again. -/
theorem not_sameFile_of_listed_again {before after : List WritePair}
    (hdistinct : (before ++ pair :: after).Pairwise fun p q => ¬ files.SameFile p.dst q.dst)
    (hagain : ∃ r ∈ after, r.src = pair.src) {q : WritePair}
    (hq : q ∈ mergePairs (before ++ pair :: after)) : ¬ files.SameFile q.dst pair.dst := by
  obtain ⟨-, hpair, hbefore⟩ := List.pairwise_append.1 hdistinct
  obtain ⟨before', after', hsplit, hlast⟩ := mem_mergePairs.1 hq
  have hother : ¬ (pair = q ∧ after = after') := by
    rintro ⟨rfl, rfl⟩
    obtain ⟨r, hr, hsame⟩ := hagain
    exact hlast r hr hsame
  -- The place of `q` in the list is after that of `pair`, the same, or before it.
  rcases List.append_eq_append_iff.1 hsplit with ⟨between, -, htail⟩ | ⟨between, rfl, htail⟩
  · cases between with
    | nil => exact absurd (List.cons_eq_cons.1 htail) hother
    | cons p between =>
      obtain ⟨rfl, rfl⟩ := List.cons_eq_cons.1 htail
      exact fun hsame => List.rel_of_pairwise_cons hpair (by simp) (SameFile.symm hsame)
  · cases between with
    | nil =>
      obtain ⟨rfl, rfl⟩ := List.cons_eq_cons.1 htail
      exact absurd ⟨rfl, rfl⟩ hother
    | cons p between =>
      obtain ⟨rfl, rfl⟩ := List.cons_eq_cons.1 htail
      exact hbefore q (by simp) pair List.mem_cons_self

namespace CommandLine

variable {config : Text} {settings : Settings} {s : Session} {around : Surroundings}

section

variable {arguments : List Text}
  (hparse : Arguments.parse arguments = .ok { config := some config, once := true })
  (hload : Settings.load around.read s.files config = .ok settings)
  (hlisted : settings.listedPairs = .ok listed)
  (hcompiler : settings.compiler s.files = .ok c)
  (hzero : (run arguments around s).2 = .returned 0)
include hparse hload hlisted hcompiler hzero

/-- A run whose exit code is zero has recompiled the merged pairs and counted them all. -/
theorem recompile_of_run_once :
    recompile around.encode c Watch.occasion s.files (mergePairs listed) =
      ((run arguments around s).1.files, .ok (mergePairs listed).length) := by
  have hne : config ≠ [] := by
    rintro rfl
    rw [run, hparse] at hzero
    cases hzero
  have hrun : run arguments around s =
      ((recompileOnce around config s).1.snapshot, (recompileOnce around config s).2) := by
    rw [run_of_config hparse rfl rfl hne, if_pos rfl]
  rw [hrun] at hzero ⊢
  obtain ⟨w, hprepare, hall⟩ := recompileOnce_eq_zero hzero
  -- The settings, the pairs and the compiler of the run are those of the hypotheses.
  obtain ⟨_, hload', -, hpairs, hcompiler', hencode⟩ := prepare_eq_ok hprepare
  obtain rfl := Except.ok.inj (hload.symm.trans hload')
  obtain rfl := Except.ok.inj (hcompiler.symm.trans hcompiler')
  rw [writePairs_eq, hlisted, ok_map] at hpairs
  rw [Except.ok.inj hpairs, ← hencode, hall]
  rfl

/-- Let a run with `--once` end with the exit code zero, where no cache is set up and the listed
destinations are different files and no sources. Then every listed pair whose source is not listed
again after it is written: its destination holds the markup of its source. The destination of a pair
whose source is listed again is as it was before the run. This is so whatever the reader of
documents makes of the settings. Paths lead to files from the working directory only. -/
theorem run_once_wrote (hcache : c.cache = none)
    (hdistinct : listed.Pairwise fun p q => ¬ s.files.SameFile p.dst q.dst)
    (hsource : ∀ p ∈ listed, ∀ q ∈ listed, ¬ s.files.SameFile p.dst q.src) :
    let files' := (run arguments around s).1.files
    ∀ before pair after, listed = before ++ pair :: after →
      ((∀ r ∈ after, r.src ≠ pair.src) → ∃ source markup bytes,
        s.files.text? pair.src = some source ∧ files'.text? pair.src = some source ∧
        c.render source = .ok markup ∧ around.encode markup = some bytes ∧
        files'.bytes? pair.dst = some bytes) ∧
      ((∃ r ∈ after, r.src = pair.src) →
        files'.bytes? pair.dst = s.files.bytes? pair.dst) := by
  intro files' before pair after hsplit
  have hall := recompile_of_run_once hparse hload hlisted hcompiler hzero
  have hapart : Apart c Watch.occasion s.files (mergePairs listed) :=
    apart_mergePairs hcache hdistinct hsource
  have hfinal :
      files' = (recompile around.encode c Watch.occasion s.files (mergePairs listed)).1 := by
    rw [hall]
  have hsame : SameBut (fun row => ∃ q ∈ mergePairs listed, s.files.locate q.dst = .ok row)
      s.files files' := hfinal ▸ hapart.sameBut_recompile
  refine ⟨fun hlast => ?_, fun hagain => ?_⟩
  · have hmerged : pair ∈ mergePairs listed := mem_mergePairs.2 ⟨before, after, hsplit, hlast⟩
    obtain ⟨bytes, hwritten, hbytes⟩ := hapart.written_of_length (by rw [hall]) hmerged
    obtain ⟨source, markup, htext, houtput, hencode, -⟩ :=
      WritePair.exists_source_of_written? hwritten
    have hkept : files'.text? pair.src = s.files.text? pair.src := by
      refine hsame.text?_eq fun row hrow => ?_
      rintro ⟨q, hq, hdst⟩
      have hlisted : pair ∈ listed := mem_of_mem_mergePairs hmerged
      exact hsource q (mem_of_mem_mergePairs hq) pair hlisted (sameFile_iff.2 ⟨row, hdst, hrow⟩)
    rw [Compiler.output_expand hcache] at houtput
    exact ⟨source, markup, bytes, htext, hkept.trans htext, houtput, hencode, hfinal ▸ hbytes⟩
  · refine hsame.bytes?_eq fun row hrow => ?_
    rintro ⟨q, hq, hdst⟩
    subst hsplit
    exact not_sameFile_of_listed_again hdistinct hagain hq (sameFile_iff.2 ⟨row, hdst, hrow⟩)

end

/-- The arguments of a run with `--once` after a path. -/
theorem parse_once (hpath : config.head? ≠ some '-') :
    Arguments.parse [config, "--once".toList] = .ok { config := some config, once := true } := by
  have hplain : Argument.classify config = some (.plain config) := by
    simp [Argument.classify, hpath]
  have hne : config ≠ "--".toList := by
    rintro rfl
    exact hpath rfl
  have honce : Argument.classifyAll ["--once".toList] = some [.option .once false false none] := by
    decide
  rw [Arguments.parse, Argument.classifyAll, if_neg hne, hplain, honce]
  simp [Arguments.read]

/-- Two files are written from two others. -/
theorem run_once_wrote_two :
    let config := "write: [\x7bsrc: a, dst: x\x7d, \x7bsrc: b, dst: y\x7d]".toList
    let files : FileTree := .file "c".toList { content := encodeUtf8 config }
      (.file "a".toList { content := encodeUtf8 "p".toList }
        (.file "b".toList { content := encodeUtf8 "ul>li".toList } .nil))
    let s : Session := { home := { root := ['/'] }, files }
    let path (name : String) : Path := Path.parse name.toList
    let result := run ["c".toList, "--once".toList] .standard s
    result.2 = .returned 0 ∧
      result.1.files.bytes? (path "x") = some (encodeUtf8 "<p></p>".toList) := by
  intro config files s path result
  let listed : List WritePair := [⟨path "a", path "x"⟩, ⟨path "b", path "y"⟩]
  have hzero : (run ["c".toList, "--once".toList] .standard s).2 = .returned 0 := by decide +kernel
  have hsetup : (do
      let settings ← Settings.load Document.read s.files "c".toList
      let listed ← settings.listedPairs
      let c ← settings.compiler s.files
      return (listed, c.cache.isNone, (c.render "p".toList).toOption)) =
        (.ok (listed, true, some "<p></p>".toList) : Except Fault _) := by decide +kernel
  have hsource : s.files.text? (path "a") = some "p".toList := by decide +kernel
  have hdistinct : listed.Pairwise fun p q => ¬ s.files.SameFile p.dst q.dst := by decide +kernel
  have hapart : ∀ p ∈ listed, ∀ q ∈ listed, ¬ s.files.SameFile p.dst q.src := by decide +kernel
  have honce : Arguments.parse ["c".toList, "--once".toList] =
      .ok { config := some "c".toList, once := true } := parse_once (by decide)
  have hlast : ∀ r ∈ [WritePair.mk (path "b") (path "y")], r.src ≠ path "a" := by decide +kernel
  have hfirst : listed = [] ++ ⟨path "a", path "x"⟩ :: [⟨path "b", path "y"⟩] := rfl
  clear_value s listed path
  obtain ⟨settings, hload, hsetup⟩ := bind_eq_ok hsetup
  obtain ⟨_, hlisted, hsetup⟩ := bind_eq_ok hsetup
  obtain ⟨c, hcompiler, hsetup⟩ := bind_eq_ok hsetup
  obtain ⟨rfl, hcache, hmarkup⟩ : _ = listed ∧ c.cache.isNone = true ∧
      (c.render "p".toList).toOption = some "<p></p>".toList := by
    simpa using Except.ok.inj hsetup
  obtain ⟨source, markup, bytes, htext, -, hrender, hencode, hbytes⟩ :=
    (run_once_wrote honce hload hlisted hcompiler hzero (by simpa using hcache) hdistinct hapart
      [] _ _ hfirst).1 hlast
  obtain rfl := Option.some.inj (hsource.symm.trans htext)
  rw [hrender] at hmarkup
  obtain rfl := Option.some.inj hmarkup
  obtain rfl := Option.some.inj hencode
  exact ⟨hzero, hbytes⟩

/-- A pair whose source is listed again in another spelling is not written, and the exit code is
zero all the same. -/
theorem run_once_listed_again :
    let config := "write: [\x7bsrc: a, dst: x\x7d, \x7bsrc: ./a, dst: y\x7d]".toList
    let files : FileTree := .file "c".toList { content := encodeUtf8 config }
      (.file "a".toList { content := encodeUtf8 "p".toList } .nil)
    let path (name : String) : Path := Path.parse name.toList
    let listed : List WritePair := [⟨path "a", path "x"⟩, ⟨path "./a", path "y"⟩]
    let result := run ["c".toList, "--once".toList] .standard { home := { root := ['/'] }, files }
    (do
      let settings ← Settings.load Document.read files "c".toList
      let listed ← settings.listedPairs
      let c ← settings.compiler files
      return (listed, c.cache.isNone, (c.render "p".toList).toOption)) =
        (.ok (listed, true, some "<p></p>".toList) : Except Fault _) ∧
      (listed.Pairwise fun p q => ¬ files.SameFile p.dst q.dst) ∧
      (∀ p ∈ listed, ∀ q ∈ listed, ¬ files.SameFile p.dst q.src) ∧
      files.text? (path "a") = some "p".toList ∧ result.2 = .returned 0 ∧
      result.1.files.bytes? (path "x") = none := by
  decide +kernel

end CommandLine

end Shorthand
