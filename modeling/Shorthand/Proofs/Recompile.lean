import Shorthand.Proofs.Opening
import Shorthand.Recompile

/-!
# Pairs that fail

What is left of a destination when its source cannot be read or expanded.

- `expandFile_of_text?_eq_none`, `expandFile_of_fault`: the files after a pair has failed.
- `expandFile_keeps_iff`: the destination keeps its content exactly when the source was not read or
  the destination was empty.

Paths lead to files from the working directory only: an absolute path leads nowhere, and a pair with
one counts as one whose file is not there.
-/

namespace Shorthand

open FileTree

variable {encode : Encoder} {c : Compiler} {o : Occasion} {files : FileTree} {pair : WritePair}
  {fault : Fault}

/-- A source that cannot be expanded leaves the files as they are. -/
theorem Compiler.files_of_fault {source : Text} {call : Option Resolver}
    (h : (c.expand o files source call).output = .error fault) :
    (c.expand o files source call).files = files := by
  rw [Compiler.expand] at h ⊢
  split at h
  · rfl
  · rfl
  · split at h
    · cases h
    · split at h
      · rfl
      · split at h <;> cases h

/-- Nothing is written when the source cannot be read. -/
theorem expandFile_of_text?_eq_none (h : files.text? pair.src = none) :
    ∃ failure, expandFile encode c o files pair = (files, .error failure) := by
  rw [text?] at h
  rw [expandFile]
  cases hread : files.openRead pair.src with
  | error e => exact ⟨e, rfl⟩
  | ok f =>
    have hnone : f.text? = none := by rwa [hread] at h
    simp only [hnone]
    exact ⟨_, rfl⟩

/-- The source of a pair is read and its destination opened, and then the expansion fails. -/
def WritePair.ExpansionFails (pair : WritePair) (c : Compiler) (o : Occasion) (files : FileTree)
    (fault : Fault) : Prop :=
  ∃ source emptied, files.text? pair.src = some source ∧
    files.openWrite pair.dst (fun f => { f with content := [], stamp := o.storeTime }) =
      .ok emptied ∧
    (c.expand o emptied source).output = .error fault

/-- The destination has been emptied, and nothing else is changed, when the expansion fails. -/
theorem expandFile_of_fault (encode : Encoder) (h : pair.ExpansionFails c o files fault) :
    ∃ emptied, expandFile encode c o files pair = (emptied, .error (.fault fault)) ∧
      files.openWrite pair.dst (fun f => { f with content := [], stamp := o.storeTime }) =
        .ok emptied := by
  obtain ⟨source, emptied, htext, hopen, houtput⟩ := h
  obtain ⟨f, hread, hf⟩ := text?_eq_some.1 htext
  refine ⟨emptied, ?_, hopen⟩
  simp only [expandFile, hread, hf, hopen, houtput, Compiler.files_of_fault houtput]

/-- Let the source of a pair be unreadable, or its expansion fail. The pair fails, and the
destination keeps its content exactly when the source was unreadable or the destination was empty:
an unreadable source leaves all files as they are, and a failing expansion leaves the destination
empty. -/
theorem expandFile_keeps_iff
    (hfail : files.text? pair.src = none ∨ ∃ fault, pair.ExpansionFails c o files fault) :
    let files' := (expandFile encode c o files pair).1
    (∃ failure, (expandFile encode c o files pair).2 = .error failure) ∧
    (files'.bytes? pair.dst = files.bytes? pair.dst ↔
      files.text? pair.src = none ∨ files.bytes? pair.dst = some []) ∧
    (files.text? pair.src = none → files' = files) ∧
    (files.text? pair.src ≠ none → files'.bytes? pair.dst = some []) ∧
    ∀ row, files.locate pair.dst ≠ .ok row → files'.kindAt row = files.kindAt row := by
  intro files'
  cases htext : files.text? pair.src with
  | none =>
    obtain ⟨failure, hfailure⟩ : ∃ failure,
        expandFile encode c o files pair = (files, .error failure) :=
      expandFile_of_text?_eq_none htext
    have hsame : files' = files := by simp only [files', hfailure]
    simp [hsame, hfailure]
  | some source =>
    have hread : files.text? pair.src ≠ none := by simp [htext]
    obtain ⟨fault, hfault⟩ := hfail.resolve_left hread
    obtain ⟨emptied, hfailure, hopen⟩ := expandFile_of_fault encode hfault
    have hsame : files' = emptied := by simp only [files', hfailure]
    have hbytes : files'.bytes? pair.dst = some [] := by
      obtain ⟨old, hold⟩ := openRead_of_openWrite hopen
      rw [hsame, bytes?_of_openRead hold]
    obtain ⟨row, old, hrow, -, hkind⟩ := exists_row_of_write (openWrite_eq_ok.1 hopen).2
    refine ⟨⟨_, congrArg Prod.snd hfailure⟩, by simp [hbytes, eq_comm], by simp, fun _ => hbytes,
      fun other hother => ?_⟩
    rw [hsame, hkind, if_neg]
    rintro rfl
    exact hother hrow

/-- A source that is not there leaves its destination missing. -/
theorem expandFile_keeps_missing :
    let files : FileTree := .file "b.html".toList { content := encodeUtf8 "old".toList } .nil
    let pair : WritePair := ⟨⟨[], ["a.emmet".toList]⟩, ⟨[], ["a.html".toList]⟩⟩
    files.text? pair.src = none ∧ (expandFile .utf8 {} {} files pair).1.bytes? pair.dst = none := by
  intro files pair
  have hnone : files.text? pair.src = none := by decide +kernel
  refine ⟨hnone, ?_⟩
  exact (expandFile_keeps_iff (c := {}) (o := {}) (.inl hnone)).2.1.2 (.inl hnone)

/-- A source that cannot be expanded leaves its destination empty. -/
theorem expandFile_loses_content :
    let files : FileTree := .file "a.emmet".toList { content := encodeUtf8 "p".toList }
      (.file "a.html".toList { content := encodeUtf8 "old".toList } .nil)
    let pair : WritePair := ⟨⟨[], ["a.emmet".toList]⟩, ⟨[], ["a.html".toList]⟩⟩
    let failed := expandFile .utf8 { resolver := some Resolver.none } {} files pair
    failed.2 = .error (.fault .noResolver) ∧
      files.bytes? pair.dst = some (encodeUtf8 "old".toList) ∧
      failed.1.bytes? pair.dst = some [] := by
  decide +kernel

end Shorthand
