import Mathlib.Data.List.Forall2
import Shorthand.Proofs.CacheFiles
import Shorthand.Proofs.Source

/-!
# Compiling by way of a cache

What a compiler answers over time, when it has a cache and when it has none.

- `Compiler.outputs`: the outputs of a list of calls, with collections in between.
- `Compiler.Serves`: the cache holds nothing but the markup of sources. `Serves.expand` keeps this
  up through one call, and tells the output of the call.
- `outputs_cached`: the outputs are those without a cache, except that line ends may be unified.
-/

namespace Shorthand

/-- No two of the sources have one key. -/
def DistinctKeys (sources : List Text) : Prop :=
  ∀ a ∈ sources, ∀ b ∈ sources, cacheKey a = cacheKey b → a = b

instance (sources : List Text) : Decidable (DistinctKeys sources) :=
  inferInstanceAs (Decidable (∀ a ∈ sources, ∀ b ∈ sources, cacheKey a = cacheKey b → a = b))

/-! ## Calls -/

/-- What happens to a compiler with a cache. -/
inductive CompilerEvent
  | expand (occasion : Occasion) (source : Text) (call : Option Resolver)
  | collect (now draw : Int) (force expiredOnly : Bool)

/-- The sources that are expanded. -/
def CompilerEvent.sources (events : List CompilerEvent) : List Text :=
  events.filterMap fun
    | .expand _ source _ => some source
    | .collect .. => none

namespace Compiler

/-- The compiler without its cache. -/
def uncached (c : Compiler) : Compiler :=
  { c with cache := none }

/-- The files after a collection of the cache, if there is one. -/
def collect (c : Compiler) (now draw : Int) (force expiredOnly : Bool) (files : FileTree) :
    FileTree :=
  match c.cache with
  | some (.ok cache) => cache.collect now draw force expiredOnly files
  | _ => files

/-- The outputs of all calls, one after the other. -/
def outputs (c : Compiler) (files : FileTree) : List CompilerEvent → List (Except Fault Text)
  | [] => []
  | .expand o source call :: events =>
    let outcome := c.expand o files source call
    outcome.output :: outputs c outcome.files events
  | .collect now draw force expiredOnly :: events =>
    outputs c (c.collect now draw force expiredOnly files) events

/-! ## What the cache holds -/

open FileTree

/-- The files of the sources in the cache directory hold their markup. -/
structure Serves (c : Compiler) (cache : Cache) (sources : List Text) (inside : FileTree) :
    Prop where
  kept : cache.Kept inside
  markup {source : Text} {f : File} : source ∈ sources →
    inside.kindAt (cache.row source) = some (.file f) →
    ∃ markup, c.render source = .ok markup ∧ f.content = encodeUtf8 markup

namespace Serves

variable {c : Compiler} {cache : Cache} {sources : List Text} {inside : FileTree}

theorem empty (c : Compiler) (cache : Cache) (sources : List Text) :
    c.Serves cache sources nil where
  kept := .empty cache
  markup {source f} _ h := by
    rw [Cache.kindAt_row_nil] at h
    cases h

/-- Nothing is lost when no file is added. -/
theorem of_kindAt {inside' : FileTree} (h : c.Serves cache sources inside)
    (hkept : cache.Kept inside')
    (hold : ∀ row f, inside'.kindAt row = some (.file f) → inside.kindAt row = some (.file f)) :
    c.Serves cache sources inside' :=
  ⟨hkept, fun hsource hf => h.markup hsource (hold _ _ hf)⟩

theorem collected (h : c.Serves cache sources inside) (now draw : Int) (force expiredOnly : Bool) :
    c.Serves cache sources (cache.collected now draw force expiredOnly inside) :=
  h.of_kindAt (h.kept.collected now draw force expiredOnly) fun _ _ => h.kept.kindAt_of_collected

theorem stored {after : FileTree} {now : Int} {source markup : Text}
    (h : c.Serves cache sources inside) (hkeys : DistinctKeys sources) (hsource : source ∈ sources)
    (hrender : c.render source = .ok markup)
    (hstored : cache.Stored now source markup inside after) : c.Serves cache sources after := by
  refine ⟨hstored.kept, fun {other f} hother hf => ?_⟩
  by_cases hrow : cache.row other = cache.row source
  · obtain rfl : other = source := hkeys other hother source hsource (cache.row_inj.1 hrow)
    obtain ⟨own, hown, hcontent, -⟩ := hstored.own
    rw [hown, Option.some.injEq, FileKind.file.injEq] at hf
    subst hf
    exact ⟨markup, hrender, hcontent⟩
  · exact h.markup hother ((hstored.other hrow).1 hf)

variable {d : List Text} {t : FileTree}

/-- What is found is the markup of the source with unified line ends. -/
theorem lookup (h : c.Serves cache sources inside) (hd : Anchored cache.directory d t)
    (hup : cache.StaysBelow) {now : Int} {source text : Text} (hsource : source ∈ sources)
    (hlookup : cache.lookup now (t.graft d inside) source = some text) :
    .ok text = unifyNewlines <$> c.render source := by
  obtain ⟨f, hf, -, htext⟩ := (Cache.lookup_graft hd hup inside now source).1 hlookup
  obtain ⟨markup, hrender, hcontent⟩ := h.markup hsource hf
  rw [File.text?, hcontent, decodeUtf8?_encodeUtf8, Option.map_some, Option.some.injEq] at htext
  rw [hrender, ok_map, htext]

/-- Storing the markup of a source keeps the cache right, whether or not it succeeds. -/
theorem store (h : c.Serves cache sources inside) (hd : Anchored cache.directory d t)
    (hup : cache.StaysBelow) (hkeys : DistinctKeys sources) (now draw : Int)
    {source markup : Text} (hsource : source ∈ sources) (hrender : c.render source = .ok markup) :
    ∃ inside', (cache.store now draw (t.graft d inside) source markup).1 = t.graft d inside' ∧
      c.Serves cache sources inside' := by
  have hswept := h.collected now draw false true
  obtain ⟨after, hstore, hstored⟩ | ⟨made, hstore, hkept, hsame⟩ :=
    h.kept.store hd hup now draw source markup
  · exact ⟨after, by rw [hstore], hswept.stored hkeys hsource hrender hstored⟩
  · exact ⟨made, by rw [hstore], hswept.of_kindAt hkept fun row f => (hsame row f).1⟩

/-- One call: the cache stays right, and the output is the markup of the source, perhaps with
unified line ends. -/
theorem expand (h : c.Serves cache sources inside) (hcache : c.cache = some (.ok cache))
    (hd : Anchored cache.directory d t) (hup : cache.StaysBelow) (hkeys : DistinctKeys sources)
    (o : Occasion) {source : Text} (hsource : source ∈ sources) (call : Option Resolver) :
    let outcome := c.expand o (t.graft d inside) source call
    (outcome.output = c.render source call ∨
      outcome.output = unifyNewlines <$> c.render source call) ∧
    ∃ inside', outcome.files = t.graft d inside' ∧ c.Serves cache sources inside' := by
  simp only [Compiler.expand]
  cases hfor : c.cacheFor source call with
  | none => exact ⟨.inl rfl, inside, rfl, h⟩
  | some opened =>
    -- The cache serves no call that has a resolver of its own.
    obtain ⟨rfl, rfl⟩ : call = none ∧ opened = .ok cache := by
      rw [cacheFor] at hfor
      split at hfor <;> simp_all
    simp only
    cases hlookup : cache.lookup o.lookupTime (t.graft d inside) source with
    | some text => exact ⟨.inr (h.lookup hd hup hsource hlookup), inside, rfl, h⟩
    | none =>
      cases hrender : c.render source with
      | error fault => exact ⟨.inl rfl, inside, rfl, h⟩
      | ok markup =>
        simp only
        split
        · exact ⟨.inl rfl, h.store hd hup hkeys o.storeTime o.draw hsource hrender⟩
        · exact ⟨.inl rfl, inside, rfl, h⟩

theorem outputs (h : c.Serves cache sources inside) (hcache : c.cache = some (.ok cache))
    (hd : Anchored cache.directory d t) (hup : cache.StaysBelow) (hkeys : DistinctKeys sources)
    (files : FileTree) {events : List CompilerEvent}
    (hevents : ∀ source ∈ CompilerEvent.sources events, source ∈ sources) :
    List.Forall₂ (fun cached plain => cached = plain ∨ cached = unifyNewlines <$> plain)
      (c.outputs (t.graft d inside) events) (c.uncached.outputs files events) := by
  induction events generalizing inside files with
  | nil => exact .nil
  | cons event events ih =>
    cases event with
    | expand o source call =>
      obtain ⟨houtput, inside', hfiles, h'⟩ :=
        h.expand hcache hd hup hkeys o (hevents source List.mem_cons_self) call
      have hplain : (c.uncached.expand o files source call).output = c.render source call :=
        output_expand rfl o files source call
      simp only [Compiler.outputs, hplain, hfiles]
      exact .cons houtput <| ih h' _ fun other hother =>
        hevents other (List.mem_cons_of_mem _ hother)
    | collect now draw force expiredOnly =>
      simp only [Compiler.outputs, Compiler.collect, hcache, Cache.collect_graft hd]
      exact ih (h.collected now draw force expiredOnly) _ hevents

end Serves

end Compiler

/-- Outputs without `\r` are the same when their line ends are unified. -/
theorem eq_of_unified {cached plain : List (Except Fault Text)}
    (h : List.Forall₂ (fun cached plain => cached = plain ∨ cached = unifyNewlines <$> plain)
      cached plain) (hplain : ∀ markup, .ok markup ∈ plain → '\r' ∉ markup) : cached = plain := by
  induction h with
  | nil => rfl
  | @cons x y _ _ hxy _ ih =>
    have hy : unifyNewlines <$> y = y := by
      cases y with
      | error fault => rfl
      | ok markup => rw [ok_map, unifyNewlines_of_not_mem (hplain markup List.mem_cons_self)]
    rw [ih fun markup hmarkup => hplain markup (List.mem_cons_of_mem _ hmarkup)]
    rcases hxy with rfl | rfl
    · rfl
    · rw [hy]

/-- Let the cache directory be empty at first, and no two sources have one key. Every call then
gives what it gives without a cache, except that line ends may be unified; so all outputs are the
same as without a cache when none of them has a `\r`. -/
theorem outputs_cached {c : Compiler} {cache : Cache} {files : FileTree}
    (hcache : c.cache = some (.ok cache))
    (hempty : files.entry cache.directory = .ok (.folder .nil)) (hup : cache.StaysBelow)
    (events : List CompilerEvent) (hkeys : DistinctKeys (CompilerEvent.sources events)) :
    List.Forall₂ (fun cached plain => cached = plain ∨ cached = unifyNewlines <$> plain)
      (c.outputs files events) (c.uncached.outputs files events) ∧
    ((∀ markup, .ok markup ∈ c.uncached.outputs files events → '\r' ∉ markup) →
      c.outputs files events = c.uncached.outputs files events) := by
  obtain ⟨d, hd⟩ := FileTree.exists_anchored hempty
  have houtputs := (Compiler.Serves.empty c cache _).outputs hcache hd hup hkeys files
    fun _ hsource => hsource
  rw [FileTree.graft_self hd.entry] at houtputs
  exact ⟨houtputs, eq_of_unified houtputs⟩

/-- The second call of the long source is answered from the cache. -/
theorem outputs_cached_hit :
    let cache : Cache := { directory := ⟨[], ["cache".toList]⟩, dirLevel := 1 }
    let c : Compiler := { indented := false, cache := some (.ok cache) }
    let files : FileTree := .folder "cache".toList .nil .nil
    let long := "p\x7b".toList ++ List.replicate 60 'a' ++ "\x7d".toList
    let events : List CompilerEvent := [.expand { slow := true } long none, .collect 5 0 true true,
      .expand { lookupTime := 7 } "ul>li*2".toList none, .expand { lookupTime := 9 } long none]
    files.entry cache.directory = .ok (.folder .nil) ∧ cache.StaysBelow ∧
      DistinctKeys (CompilerEvent.sources events) ∧
      c.outputs files events = c.uncached.outputs files events := by
  intro cache c files long events
  have hup : cache.StaysBelow := Cache.staysBelow_of_not_mem (by decide)
  have hkeys : DistinctKeys (CompilerEvent.sources events) := by decide +kernel
  have hplain : ∀ output ∈ c.uncached.outputs files events, ∀ markup ∈ output.toOption,
      '\r' ∉ markup := by
    decide +kernel
  exact ⟨rfl, hup, hkeys, (outputs_cached rfl rfl hup events hkeys).2 fun markup hmarkup =>
    hplain _ hmarkup markup rfl⟩

/-- The markup of the second call was stored with a `\r`, and is read back with a `\n`. -/
theorem outputs_cached_carriageReturn :
    let cache : Cache := { directory := ⟨[], ["cache".toList]⟩ }
    let c : Compiler := { indented := false, cache := some (.ok cache) }
    let files : FileTree := .folder "cache".toList .nil .nil
    let source := "p\x7b".toList ++ List.replicate 60 'a' ++ "\r\x7d".toList
    let events : List CompilerEvent :=
      [.expand { slow := true } source none, .expand { slow := true } source none]
    let markup (lineEnd : Char) : Text :=
      "<p>".toList ++ List.replicate 60 'a' ++ [lineEnd] ++ "</p>".toList
    files.entry cache.directory = .ok (.folder .nil) ∧ cache.StaysBelow ∧
      c.outputs files events = [.ok (markup '\r'), .ok (markup '\n')] ∧
      c.uncached.outputs files events = [.ok (markup '\r'), .ok (markup '\r')] := by
  refine ⟨rfl, Cache.staysBelow_of_not_mem (by decide), ?_, ?_⟩ <;> decide +kernel

/-- With an extension that leads upwards, sources with different keys may share a file. -/
example :
    let cache : Cache :=
      { directory := ⟨[], ["cache".toList]⟩, dirLevel := 1, extension := "/../x".toList }
    let c : Compiler := { indented := false, cache := some (.ok cache) }
    let files : FileTree := .folder "cache".toList .nil .nil
    let source (last : Char) := "p\x7b".toList ++ List.replicate 60 'a' ++ [last, '}']
    let events : List CompilerEvent := [.expand { slow := true } (source '1') none,
      .expand { slow := true } (source '2') none, .expand {} (source '1') none]
    DistinctKeys (CompilerEvent.sources events) ∧
      c.outputs files events ≠ c.uncached.outputs files events := by
  decide +kernel

end Shorthand
