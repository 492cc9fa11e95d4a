import Mathlib.Data.List.Induction
import Mathlib.Logic.Function.Basic
import Shorthand.Proofs.CacheFiles

/-!
# The cache as an expiring map

A cache stands for a map from keys to texts, each up to a time.

- `CacheEvent`, `Cache.run`: what happens to a cache, one event after the other, while time passes.
- `ExpiringMap.run`: the same for the map.
- `Cache.Holds`: the files hold the map, up to texts that have expired. `Holds.after` keeps this up
  through one event, `Holds.run` through all of them.
- `ExpiringMap.run_eq_some`: what the map holds, told from the events.
- `lookup_iff_stored`: a text is found exactly from its store until it expires, is replaced or is
  removed.
-/

namespace Shorthand

/-! ## Events -/

/-- What happens to a cache. -/
inductive CacheEvent
  | store (key value : Text) (draw : Int)
  | lookup (key : Text)
  | delete (key : Text)
  | collect (draw : Int) (force expiredOnly : Bool)
  /-- Time passes. -/
  | wait (seconds : Nat)
  deriving DecidableEq, Repr

/-- The files at one time. -/
structure CacheMoment where
  now : Int
  files : FileTree

/-- The files after an event. A look-up leaves them as they are. -/
def Cache.after (c : Cache) (s : CacheMoment) : CacheEvent → CacheMoment
  | .store key value draw => { s with files := (c.store s.now draw s.files key value).1 }
  | .lookup _ => s
  | .delete key => { s with files := (c.delete s.files key).1 }
  | .collect draw force expiredOnly =>
    { s with files := c.collect s.now draw force expiredOnly s.files }
  | .wait seconds => { s with now := s.now + seconds }

/-- The files after a list of events. -/
def Cache.run (c : Cache) (s : CacheMoment) (events : List CacheEvent) : CacheMoment :=
  events.foldl c.after s

namespace CacheEvent

/-- The time that an event takes. -/
def seconds : CacheEvent → Nat
  | wait seconds => seconds
  | _ => 0

/-- The event stores a text under the key, or takes away what is stored under it: a removal, or a
collection of all files that runs. -/
def Ends (c : Cache) (key : Text) : CacheEvent → Prop
  | store other _ _ => cacheKey other = cacheKey key
  | delete other => cacheKey other = cacheKey key
  | collect draw force expiredOnly =>
    expiredOnly = false ∧ (force = true ∨ draw < c.gcProbability)
  | _ => False

end CacheEvent

/-! ## Maps -/

/-- A text with the time at which it expires. -/
structure ExpiringText where
  text : Text
  expiry : Int
  deriving DecidableEq, Repr

/-- The texts under the keys. -/
abbrev ExpiringMap := Text → Option ExpiringText

namespace ExpiringMap

/-- The text of a key that has not expired. -/
def find? (m : ExpiringMap) (now : Int) (name : Text) : Option Text :=
  ((m name).filter (now < ·.expiry)).map (·.text)

/-- The map after an event at a time. -/
def after (c : Cache) (now : Int) (m : ExpiringMap) : CacheEvent → ExpiringMap
  | .store key value _ => Function.update m (cacheKey key) (some ⟨value, now + c.lifetime⟩)
  | .delete key => Function.update m (cacheKey key) none
  | .collect draw force expiredOnly =>
    if !expiredOnly && (force || draw < c.gcProbability) then fun _ => none else m
  | _ => m

/-- The map after a list of events, the first of them at the time `now`. -/
def run (c : Cache) (now : Int) (m : ExpiringMap) : List CacheEvent → ExpiringMap
  | [] => m
  | event :: events => run c (now + event.seconds) (after c now m event) events

end ExpiringMap

namespace Cache

theorem now_after (c : Cache) (s : CacheMoment) (event : CacheEvent) :
    (c.after s event).now = s.now + event.seconds := by
  cases event <;> simp [after, CacheEvent.seconds]

theorem run_cons (c : Cache) (s : CacheMoment) (event : CacheEvent) (events : List CacheEvent) :
    c.run s (event :: events) = c.run (c.after s event) events :=
  rfl

theorem run_append (c : Cache) (s : CacheMoment) (before later : List CacheEvent) :
    c.run s (before ++ later) = c.run (c.run s before) later :=
  List.foldl_append

/-! ## Files that hold a map -/

open FileTree

/-- The entries of the cache directory hold the map: each key's file is its text, and a text has a
file until it expires. -/
structure Holds (c : Cache) (now : Int) (inside : FileTree) (m : ExpiringMap) : Prop where
  kept : c.Kept inside
  text {key : Text} {f : File} : inside.kindAt (c.row key) = some (.file f) →
    ∃ e, m (cacheKey key) = some e ∧ f.content = encodeUtf8 e.text ∧ f.stamp = e.expiry
  file {key : Text} {e : ExpiringText} : m (cacheKey key) = some e → now < e.expiry →
    ∃ f, inside.kindAt (c.row key) = some (.file f)

namespace Holds

variable {c : Cache} {now : Int} {inside : FileTree} {m : ExpiringMap}

theorem empty (c : Cache) (now : Int) : c.Holds now nil fun _ => none where
  kept := .empty c
  text {key f} h := by
    rw [kindAt_row_nil] at h
    cases h
  file h _ := by cases h

theorem wait (h : c.Holds now inside m) (seconds : Nat) : c.Holds (now + seconds) inside m where
  kept := h.kept
  text := h.text
  file he hlive := h.file he (by omega)

/-- The file of a text that has not expired. -/
theorem exists_file (h : c.Holds now inside m) {key : Text} {e : ExpiringText}
    (he : m (cacheKey key) = some e) (hlive : now < e.expiry) :
    ∃ f, inside.kindAt (c.row key) = some (.file f) ∧
      f.content = encodeUtf8 e.text ∧ f.stamp = e.expiry := by
  obtain ⟨f, hf⟩ := h.file he hlive
  obtain ⟨e', he', hcontent, hstamp⟩ := h.text hf
  rw [he, Option.some.injEq] at he'
  subst he'
  exact ⟨f, hf, hcontent, hstamp⟩

/-- A look-up finds what the map holds, with its line ends unified. -/
theorem lookup (h : c.Holds now inside m) {d : List Text} {t : FileTree}
    (hd : Anchored c.directory d t) (hup : c.StaysBelow) (key : Text) :
    c.lookup now (t.graft d inside) key = (m.find? now (cacheKey key)).map unifyNewlines := by
  refine Option.ext fun text => ?_
  rw [lookup_graft hd hup]
  simp only [ExpiringMap.find?, Option.map_map, Option.map_eq_some_iff, Option.filter_eq_some_iff,
    decide_eq_true_eq, Function.comp]
  have hread : ∀ {f : File} {e : ExpiringText}, f.content = encodeUtf8 e.text →
      f.text? = some (unifyNewlines e.text) := fun hcontent => by
    rw [File.text?, hcontent, decodeUtf8?_encodeUtf8, Option.map_some]
  constructor
  · rintro ⟨f, hf, hlive, htext⟩
    obtain ⟨e, he, hcontent, hstamp⟩ := h.text hf
    rw [hread hcontent, Option.some.injEq] at htext
    exact ⟨e, ⟨he, by omega⟩, htext⟩
  · rintro ⟨e, ⟨he, hlive⟩, htext⟩
    obtain ⟨f, hf, hcontent, hstamp⟩ := h.exists_file he hlive
    exact ⟨f, hf, by omega, by rw [hread hcontent, htext]⟩

/-- A collection takes away texts that have expired, and all of them unless it is one of expired
files only. -/
theorem sweep (h : c.Holds now inside m) (hext : '/' ∉ c.extension) (expiredOnly : Bool) :
    c.Holds now (inside.sweep expiredOnly now).1 (if expiredOnly then m else fun _ => none) := by
  have hfile {key : Text} {f : File} :
      (inside.sweep expiredOnly now).1.kindAt (c.row key) = some (.file f) ↔
        inside.kindAt (c.row key) = some (.file f) ∧ expiredOnly = true ∧ now ≤ f.stamp :=
    kindAt_sweep h.kept.distinct fun _ => isHiddenName_of_mem_row hext
  refine ⟨⟨h.kept.distinct.sweep _ _, h.kept.filesAt.mono fun _ _ =>
    kindAt_of_sweep h.kept.distinct⟩, ?_, ?_⟩
  · intro key f hf
    obtain ⟨hold, rfl, -⟩ := hfile.1 hf
    exact h.text hold
  · intro key e he hlive
    cases expiredOnly with
    | false => cases he
    | true =>
      obtain ⟨f, hf, -, hstamp⟩ := h.exists_file he hlive
      exact ⟨f, hfile.2 ⟨hf, rfl, by omega⟩⟩

theorem collected (h : c.Holds now inside m) (hext : '/' ∉ c.extension) (draw : Int)
    (force expiredOnly : Bool) :
    c.Holds now (c.collected now draw force expiredOnly inside)
      (m.after c now (.collect draw force expiredOnly)) := by
  rw [Cache.collected, ExpiringMap.after]
  cases hruns : (force || decide (draw < c.gcProbability)) with
  | false => simpa using h
  | true =>
    have hsweep := h.sweep hext expiredOnly
    cases expiredOnly <;> simpa using hsweep

theorem dropped (h : c.Holds now inside m) (key : Text) :
    c.Holds now (c.dropped inside key) (m.after c now (.delete key)) := by
  refine ⟨h.kept.dropped key, ?_, ?_⟩
  · intro other f hf
    obtain ⟨hrow, hf⟩ := (Kept.kindAt_dropped inside key _).1 hf
    rw [ExpiringMap.after, Function.update_of_ne fun hkey => hrow (c.row_inj.2 hkey)]
    exact h.text hf
  · intro other e he hlive
    rw [ExpiringMap.after] at he
    by_cases hkey : cacheKey other = cacheKey key
    · rw [hkey, Function.update_self] at he
      cases he
    · rw [Function.update_of_ne hkey] at he
      obtain ⟨f, hf⟩ := h.file he hlive
      exact ⟨f, (Kept.kindAt_dropped inside key _).2 ⟨fun hrow => hkey (c.row_inj.1 hrow), hf⟩⟩

theorem stored {after : FileTree} {key value : Text} (h : c.Holds now inside m)
    (hstored : c.Stored now key value inside after) (draw : Int) :
    c.Holds now after (m.after c now (.store key value draw)) := by
  obtain ⟨own, hown, hcontent, hstamp⟩ := hstored.own
  refine ⟨hstored.kept, ?_, ?_⟩
  · intro other f hf
    rw [ExpiringMap.after]
    by_cases hkey : cacheKey other = cacheKey key
    · rw [c.row_inj.2 hkey, hown, Option.some.injEq, FileKind.file.injEq] at hf
      subst hf
      exact ⟨_, by rw [hkey, Function.update_self], hcontent, hstamp⟩
    · rw [Function.update_of_ne hkey]
      exact h.text ((hstored.other fun hrow => hkey (c.row_inj.1 hrow)).1 hf)
  · intro other e he hlive
    rw [ExpiringMap.after] at he
    by_cases hkey : cacheKey other = cacheKey key
    · exact ⟨own, by rw [c.row_inj.2 hkey, hown]⟩
    · rw [Function.update_of_ne hkey] at he
      obtain ⟨f, hf⟩ := h.file he hlive
      exact ⟨f, (hstored.other fun hrow => hkey (c.row_inj.1 hrow)).2 hf⟩

/-- One event keeps the map up, inside the cache directory. -/
theorem after {s : CacheMoment} {d : List Text} {t : FileTree} (h : c.Holds s.now inside m)
    (hd : Anchored c.directory d t) (hext : '/' ∉ c.extension)
    (hfiles : s.files = t.graft d inside) (event : CacheEvent) :
    ∃ inside', (c.after s event).files = t.graft d inside' ∧
      c.Holds (c.after s event).now inside' (m.after c s.now event) := by
  have hup := staysBelow_of_not_mem hext
  cases event with
  | store key value draw =>
    have hswept : c.Holds s.now (c.collected s.now draw false true inside) m :=
      h.collected hext draw false true
    obtain ⟨stored, hstore, hstored⟩ :=
      h.kept.exists_store hd hup (.inr (extensionParts_of_not_mem hext)) s.now draw key value
    refine ⟨stored, ?_, hswept.stored hstored draw⟩
    simp only [Cache.after, hfiles, hstore]
  | lookup key => exact ⟨inside, hfiles, h⟩
  | delete key =>
    refine ⟨c.dropped inside key, ?_, h.dropped key⟩
    simp only [Cache.after, hfiles, delete_graft hd hup]
  | collect draw force expiredOnly =>
    refine ⟨c.collected s.now draw force expiredOnly inside, ?_,
      h.collected hext draw force expiredOnly⟩
    simp only [Cache.after, hfiles, collect_graft hd]
  | wait seconds => exact ⟨inside, hfiles, h.wait seconds⟩

/-- All events keep the map up. -/
theorem run {s : CacheMoment} {d : List Text} {t : FileTree} (h : c.Holds s.now inside m)
    (hd : Anchored c.directory d t) (hext : '/' ∉ c.extension)
    (hfiles : s.files = t.graft d inside) (events : List CacheEvent) :
    ∃ inside', (c.run s events).files = t.graft d inside' ∧
      c.Holds (c.run s events).now inside' (m.run c s.now events) := by
  induction events generalizing s inside m with
  | nil => exact ⟨inside, hfiles, h⟩
  | cons event events ih =>
    obtain ⟨inside', hfiles', h'⟩ := h.after hd hext hfiles event
    obtain ⟨last, hlast⟩ := ih h' hfiles'
    exact ⟨last, by simpa only [ExpiringMap.run, run_cons, now_after] using hlast⟩

end Holds

/-! ## What the map holds -/

/-- The text was stored under the key at a time, and no event since then has ended that. -/
def StoredAt (c : Cache) (start : CacheMoment) (events : List CacheEvent) (key value : Text)
    (time : Int) : Prop :=
  ∃ before other draw later, events = before ++ .store other value draw :: later ∧
    cacheKey other = cacheKey key ∧ (c.run start before).now = time ∧
    ∀ event ∈ later, ¬ event.Ends c key

section StoredAt

variable {c : Cache} {start : CacheMoment} {events : List CacheEvent} {last : CacheEvent}
  {key value : Text} {time : Int}

theorem storedAt_concat_of_not_ends (h : ¬ last.Ends c key) :
    c.StoredAt start (events ++ [last]) key value time ↔
      c.StoredAt start events key value time := by
  constructor
  · rintro ⟨before, other, draw, later, hevents, hkey, htime, hlater⟩
    rcases List.eq_nil_or_concat later with rfl | ⟨later, event, rfl⟩
    · obtain ⟨-, hlast⟩ := List.append_inj' hevents rfl
      obtain rfl : last = .store other value draw := by simpa using hlast
      exact absurd hkey h
    · rw [List.concat_eq_append, ← List.cons_append, ← List.append_assoc] at hevents
      obtain ⟨rfl, -⟩ := List.append_inj' hevents rfl
      exact ⟨before, other, draw, later, rfl, hkey, htime, fun event hevent =>
        hlater event (by simp [hevent])⟩
  · rintro ⟨before, other, draw, later, rfl, hkey, htime, hlater⟩
    refine ⟨before, other, draw, later ++ [last], by simp, hkey, htime, fun event hevent => ?_⟩
    rcases List.mem_append.1 hevent with hevent | hevent
    · exact hlater event hevent
    · rwa [List.mem_singleton.1 hevent]

theorem storedAt_concat_of_ends (h : last.Ends c key) :
    c.StoredAt start (events ++ [last]) key value time ↔
      (∃ other draw, last = .store other value draw) ∧ (c.run start events).now = time := by
  constructor
  · rintro ⟨before, other, draw, later, hevents, hkey, htime, hlater⟩
    rcases List.eq_nil_or_concat later with rfl | ⟨later, event, rfl⟩
    · obtain ⟨rfl, hlast⟩ := List.append_inj' hevents rfl
      exact ⟨⟨other, draw, by simpa using hlast⟩, htime⟩
    · rw [List.concat_eq_append, ← List.cons_append, ← List.append_assoc] at hevents
      obtain ⟨-, hlast⟩ := List.append_inj' hevents rfl
      obtain rfl : last = event := by simpa using hlast
      exact absurd h (hlater last (by simp))
  · rintro ⟨⟨other, draw, rfl⟩, htime⟩
    exact ⟨events, other, draw, [], rfl, h, htime, nofun⟩

end StoredAt

end Cache

namespace ExpiringMap

variable {c : Cache} {now : Int} {m : ExpiringMap} {key : Text}

theorem run_append (c : Cache) (s : CacheMoment) (m : ExpiringMap)
    (before later : List CacheEvent) :
    m.run c s.now (before ++ later) = (m.run c s.now before).run c (c.run s before).now later := by
  induction before generalizing s m with
  | nil => rfl
  | cons event before ih =>
    simpa only [List.cons_append, run, Cache.run_cons, Cache.now_after]
      using ih (c.after s event) (m.after c s.now event)

/-- An event changes what is under a key only if it ends it. -/
theorem after_of_not_ends {event : CacheEvent} (h : ¬ event.Ends c key) :
    m.after c now event (cacheKey key) = m (cacheKey key) := by
  cases event with
  | store other value draw => exact Function.update_of_ne (Ne.symm h) _ _
  | lookup other => rfl
  | delete other => exact Function.update_of_ne (Ne.symm h) _ _
  | collect draw force expiredOnly =>
    rw [after, if_neg]
    simpa [CacheEvent.Ends] using h
  | wait seconds => rfl

/-- An event that ends what is under a key leaves nothing there, or the text that it stores. -/
theorem after_of_ends {event : CacheEvent} (h : event.Ends c key) :
    (∃ other value draw, event = .store other value draw ∧
      m.after c now event (cacheKey key) = some ⟨value, now + c.lifetime⟩) ∨
    (∀ other value draw, event ≠ .store other value draw) ∧
      m.after c now event (cacheKey key) = none := by
  cases event with
  | store other value draw =>
    have hkey : cacheKey other = cacheKey key := h
    exact .inl ⟨other, value, draw, rfl, by rw [after, hkey, Function.update_self]⟩
  | lookup other => cases h
  | delete other =>
    have hkey : cacheKey other = cacheKey key := h
    exact .inr ⟨nofun, by rw [after, hkey, Function.update_self]⟩
  | collect draw force expiredOnly =>
    refine .inr ⟨nofun, ?_⟩
    rw [after, if_pos]
    simpa [CacheEvent.Ends] using h
  | wait seconds => cases h

/-- The map holds the text of the last store under a key, unless an event after it has ended
that. -/
theorem run_eq_some (c : Cache) (start : CacheMoment) (events : List CacheEvent) (key : Text)
    {e : ExpiringText} :
    run c start.now (fun _ => none) events (cacheKey key) = some e ↔
      ∃ time, c.StoredAt start events key e.text time ∧ e.expiry = time + c.lifetime := by
  induction events using List.reverseRecOn generalizing e with
  | nil => simp [run, Cache.StoredAt]
  | append_singleton events last ih =>
    rw [run_append, run, run]
    by_cases hends : last.Ends c key
    · simp only [Cache.storedAt_concat_of_ends hends]
      obtain ⟨other, value, draw, rfl, hafter⟩ | ⟨hstore, hafter⟩ := after_of_ends hends
      · obtain ⟨text, expiry⟩ := e
        rw [hafter, Option.some.injEq, ExpiringText.mk.injEq]
        constructor
        · rintro ⟨rfl, rfl⟩
          exact ⟨_, ⟨⟨other, draw, rfl⟩, rfl⟩, rfl⟩
        · rintro ⟨_, ⟨⟨_, _, hevent⟩, rfl⟩, rfl⟩
          cases hevent
          exact ⟨rfl, rfl⟩
      · simp [hafter, hstore]
    · simp only [Cache.storedAt_concat_of_not_ends hends, after_of_not_ends hends, ih]

theorem find?_run_eq_some (c : Cache) (start : CacheMoment) (events : List CacheEvent) (now : Int)
    (key : Text) {value : Text} :
    (run c start.now (fun _ => none) events).find? now (cacheKey key) = some value ↔
      ∃ time, c.StoredAt start events key value time ∧ now < time + c.lifetime := by
  simp only [find?, Option.map_eq_some_iff, Option.filter_eq_some_iff, decide_eq_true_eq]
  constructor
  · rintro ⟨e, ⟨he, hlive⟩, rfl⟩
    obtain ⟨time, hstored, hexpiry⟩ := (run_eq_some c start events key).1 he
    exact ⟨time, hstored, hexpiry ▸ hlive⟩
  · rintro ⟨time, hstored, hlive⟩
    exact ⟨⟨value, time + c.lifetime⟩, ⟨(run_eq_some c start events key).2 ⟨time, hstored, rfl⟩,
      hlive⟩, rfl⟩

end ExpiringMap

/-! ## The cache over time -/

namespace Cache

open FileTree

variable {c : Cache} {files : FileTree}

/-- A cache whose directory is empty at first holds the map at all times. -/
theorem exists_holds (hempty : files.entry c.directory = .ok (.folder .nil))
    (hext : '/' ∉ c.extension) (start : Int) (events : List CacheEvent) :
    ∃ d inside, Anchored c.directory d files ∧
      (c.run ⟨start, files⟩ events).files = files.graft d inside ∧
      c.Holds (c.run ⟨start, files⟩ events).now inside (.run c start (fun _ => none) events) := by
  obtain ⟨d, hd⟩ := exists_anchored hempty
  obtain ⟨inside, hrun⟩ := (Holds.empty c start).run (s := ⟨start, files⟩) hd hext
    (graft_self hd.entry).symm events
  exact ⟨d, inside, hd, hrun⟩

/-- A store changes no look-up of another key. -/
theorem Holds.lookup_store {now : Int} {inside : FileTree} {m : ExpiringMap} {d : List Text}
    (h : c.Holds now inside m) (hd : Anchored c.directory d files) (hext : '/' ∉ c.extension)
    (draw : Int) {other key : Text} (hkey : cacheKey other ≠ cacheKey key) (value : Text) :
    c.lookup now (c.store now draw (files.graft d inside) other value).1 key =
      c.lookup now (files.graft d inside) key := by
  have hup := staysBelow_of_not_mem hext
  obtain ⟨stored, hfiles, hstored⟩ :=
    h.after (s := ⟨now, _⟩) hd hext rfl (.store other value draw)
  have hsame : m.after c now (.store other value draw) (cacheKey key) = m (cacheKey key) :=
    ExpiringMap.after_of_not_ends hkey
  have hlookup := hstored.lookup hd hup key
  rw [← hfiles, ExpiringMap.find?, hsame] at hlookup
  exact hlookup.trans (h.lookup hd hup key).symm

end Cache

/-- Let the cache directory be empty at first. A text is found under a key when it was stored under
it, has not expired, and no other store, removal or collection of all files has ended that; its line
ends are then unified. Every store succeeds, and changes no look-up of another key. -/
theorem lookup_iff_stored {c : Cache} {files : FileTree}
    (hempty : files.entry c.directory = .ok (.folder .nil)) (hext : '/' ∉ c.extension) (start : Int)
    (events : List CacheEvent) (key : Text) :
    let s := c.run ⟨start, files⟩ events
    (∀ text, c.lookup s.now s.files key = some text ↔
      ∃ value time, c.StoredAt ⟨start, files⟩ events key value time ∧
        s.now < time + (if 0 < c.duration then c.duration else oneYear) ∧
        text = unifyNewlines value) ∧
    (∀ draw other value, (c.store s.now draw s.files other value).2 = true) ∧
    ∀ draw other value, cacheKey other ≠ cacheKey key →
      c.lookup s.now (c.store s.now draw s.files other value).1 key =
        c.lookup s.now s.files key := by
  intro s
  have hup := Cache.staysBelow_of_not_mem hext
  obtain ⟨d, inside, hd, hfiles, h⟩ := Cache.exists_holds hempty hext start events
  refine ⟨fun text => ?_, fun draw other value => ?_, fun draw other value hkey => ?_⟩
  · rw [hfiles, h.lookup hd hup, Option.map_eq_some_iff]
    simp only [ExpiringMap.find?_run_eq_some c ⟨start, files⟩, Cache.lifetime]
    constructor
    · rintro ⟨value, ⟨time, hstored, hlive⟩, rfl⟩
      exact ⟨value, time, hstored, hlive, rfl⟩
    · rintro ⟨value, time, hstored, hlive, rfl⟩
      exact ⟨value, ⟨time, hstored, hlive⟩, rfl⟩
  · obtain ⟨stored, hstore, -⟩ := h.kept.exists_store hd hup
      (.inr (extensionParts_of_not_mem hext)) s.now draw other value
    rw [hfiles, hstore]
  · rw [hfiles]
    exact h.lookup_store hd hext draw hkey value

/-- A text stays found through the store of another one that collects first, through time passing,
and through a collection of expired files. -/
theorem lookup_iff_stored_sharded :
    let c : Cache := { directory := ⟨[], ["cache".toList]⟩, dirLevel := 2, duration := 9 }
    let files : FileTree := .folder "cache".toList .nil .nil
    let events : List CacheEvent := [.store "p".toList "a\r\nb".toList 500, .wait 5,
      .store "ul".toList "c".toList 3, .wait 3, .collect 500 true true]
    files.entry c.directory = .ok (.folder .nil) ∧ '/' ∉ c.extension ∧
      c.lookup (c.run ⟨100, files⟩ events).now (c.run ⟨100, files⟩ events).files "p".toList =
        some "a\nb".toList := by
  intro c files events
  have hempty : files.entry c.directory = .ok (.folder .nil) := rfl
  have hext : '/' ∉ c.extension := by decide
  refine ⟨hempty, hext, ((lookup_iff_stored hempty hext 100 events "p".toList).1 _).2
    ⟨"a\r\nb".toList, 100, ⟨[], "p".toList, 500, events.tail, rfl, rfl, rfl, ?_⟩, ?_, rfl⟩⟩
  · have hother : cacheKey "ul".toList ≠ cacheKey "p".toList := by decide
    simpa [events, CacheEvent.Ends] using hother
  · decide

end Shorthand
