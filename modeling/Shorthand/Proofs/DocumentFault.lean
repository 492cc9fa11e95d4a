import Shorthand.Document.Meaning
import Shorthand.Proofs.Limit

/-!
# Faults of documents

What the reader of documents of this library fails with, besides taking a text for one that is not
well formed.

- `Document.plains`: the plain scalars of a document.
- `Document.Unreadable`: a plain scalar is like an integer that cannot be read, or like a date or a
  moment that is not in the calendar. `value_failsIn`: a document has a value but for these.
- `Document.FaultOfEscape`: an escape has a number beyond the last character. `parse_failsIn`: a text
  that is well formed has a document but for this. The induction is on the steps that a reading may
  take, in the order of the functions that call one another.
- `Document.read_fault`: the reader fails by one of these.
-/

namespace Shorthand.Document

mutual

/-- The plain scalars of a document, those of keys included. -/
def plains : Document → List Text
  | plain t => [t]
  | quoted _ => []
  | list items => plainsOfItems items
  | mapping entries => plainsOfEntries entries

/-- The plain scalars of the items of a list. -/
def plainsOfItems : List Document → List Text
  | [] => []
  | item :: rest => item.plains ++ plainsOfItems rest

/-- The plain scalars of the entries of a mapping. -/
def plainsOfEntries : List (Document × Document) → List Text
  | [] => []
  | (key, value) :: rest => key.plains ++ value.plains ++ plainsOfEntries rest

end

/-- The fault of a scalar that is like an integer but has too many digits or none, or like a date or
a moment but is not in the calendar. -/
def Unreadable (t : Text) (fault : Fault) : Prop :=
  integer? t = some (.error fault) ∨
    ∃ cause, timestamp? t = some (.error cause) ∧ fault = .badMoment cause

theorem plainMeaning_failsIn (t : Text) : FailsIn (Unreadable t) (plainMeaning t) := by
  intro fault h
  rw [plainMeaning] at h
  split at h
  · cases h
  · split at h
    · cases h
    · split at h
      · cases h
      · split at h
        · rename_i z hz
          cases z with
          | error f =>
            cases h
            exact .inl hz
          | ok n => cases h
        · cases h
        · rename_i moment _ _ hmoment
          cases moment with
          | error cause =>
            cases h
            exact .inr ⟨cause, hmoment, rfl⟩
          | ok s => cases h
        · cases h

/-! ## Values -/

/-- The text was not well formed, or one of some plain scalars is unreadable. -/
def FaultOfPlains (ts : List Text) : DocumentFault → Prop
  | .malformed => True
  | .fault fault => ∃ t ∈ ts, Unreadable t fault

theorem FaultOfPlains.mono {ts us : List Text} (hsub : ts ⊆ us) (f : DocumentFault)
    (h : FaultOfPlains ts f) : FaultOfPlains us f := by
  cases f with
  | malformed => trivial
  | fault fault =>
    obtain ⟨t, ht, hbad⟩ := h
    exact ⟨t, hsub ht, hbad⟩

theorem plain_failsIn (t : Text) :
    FailsIn (FaultOfPlains [t]) ((plainMeaning t).mapError .fault) := by
  cases h : plainMeaning t with
  | error fault => exact .error ⟨t, List.mem_singleton_self t, plainMeaning_failsIn t fault h⟩
  | ok s => exact .ok s

theorem keyMeaning_failsIn (key : Document) :
    FailsIn (FaultOfPlains key.plains) (keyMeaning key) := by
  cases key with
  | plain t =>
    rw [keyMeaning]
    split
    · exact .error trivial
    · exact plain_failsIn t
  | quoted t => exact .ok _
  | list items => exact .error trivial
  | mapping entries => exact .error trivial

mutual

theorem value_failsIn (d : Document) : FailsIn (FaultOfPlains d.plains) d.value := by
  cases d with
  | plain t =>
    rw [value]
    split
    · exact .error trivial
    · exact (plain_failsIn t).bind fun s => .pure _
  | quoted t => exact .ok _
  | list items => exact (valueItems_failsIn items).bind fun vs => .pure _
  | mapping entries => exact (valueEntries_failsIn [] entries).bind fun es => .pure _

theorem valueItems_failsIn (items : List Document) :
    FailsIn (FaultOfPlains (plainsOfItems items)) (valueItems items) := by
  cases items with
  | nil => exact .ok _
  | cons item rest =>
    rw [plainsOfItems]
    refine ((value_failsIn item).mono (FaultOfPlains.mono ?_)).bind fun v =>
      ((valueItems_failsIn rest).mono (FaultOfPlains.mono ?_)).bind fun vs => .pure _
    · exact List.subset_append_left _ _
    · exact List.subset_append_right _ _

theorem valueEntries_failsIn (before : List (Scalar × Value))
    (entries : List (Document × Document)) :
    FailsIn (FaultOfPlains (plainsOfEntries entries)) (valueEntries before entries) := by
  cases entries with
  | nil => exact .ok _
  | cons entry rest =>
    obtain ⟨key, v⟩ := entry
    rw [plainsOfEntries, valueEntries]
    refine ((keyMeaning_failsIn key).mono (FaultOfPlains.mono ?_)).bind fun k =>
      ((value_failsIn v).mono (FaultOfPlains.mono ?_)).bind fun w =>
        (valueEntries_failsIn _ rest).mono (FaultOfPlains.mono ?_)
    · exact List.subset_append_of_subset_left _ (List.subset_append_left _ _)
    · exact List.subset_append_of_subset_left _ (List.subset_append_right _ _)
    · exact List.subset_append_right _ _

end

/-! ## Reading -/

/-- The text was not well formed, or an escape has a number beyond the last character. -/
def FaultOfEscape : DocumentFault → Prop
  | .malformed => True
  | .fault fault => ∃ code, 0x10FFFF < code ∧ fault = .notCharacter code

theorem malformed_failsIn {α : Type} : FailsIn FaultOfEscape (.error .malformed : Reading α) :=
  .error trivial

theorem wellFormed_failsIn {α : Type} (x : Option α) : FailsIn FaultOfEscape (wellFormed x) := by
  cases x with
  | none => exact malformed_failsIn
  | some a => exact .ok a

theorem charOfCode_failsIn (code : Nat) : FailsIn FaultOfEscape (charOfCode code) := by
  rw [charOfCode]
  refine .ite (.ok _) ?_
  split
  · exact .error ⟨code, ‹_›, rfl⟩
  · exact malformed_failsIn

theorem escape_failsIn (c : Cursor) : FailsIn FaultOfEscape (escape c) := by
  unfold escape
  split
  · exact malformed_failsIn
  · split
    · exact .ok _
    · refine .ite ?_ malformed_failsIn
      exact (wellFormed_failsIn _).bind fun code => (charOfCode_failsIn code).bind fun e => .pure _
    · exact wellFormed_failsIn _

theorem quotedRest_failsIn (double : Bool) (n : Nat) (c : Cursor) :
    FailsIn FaultOfEscape (quotedRest double n c) := by
  induction n generalizing c with
  | zero => exact malformed_failsIn
  | succ n ih =>
    rw [quotedRest]
    split
    · exact malformed_failsIn
    · refine .ite ((wellFormed_failsIn _).bind fun space => (ih _).bind fun more => .pure _) ?_
      refine .ite ((escape_failsIn _).bind fun t => (ih _).bind fun more => .pure _) ?_
      refine .ite ((ih _).bind fun more => .pure _) ?_
      exact .ite (.ok _) ((ih _).bind fun more => .pure _)

mutual

theorem readFlow_failsIn (n : Nat) (c : Cursor) : FailsIn FaultOfEscape (readFlow n c) := by
  cases n with
  | zero => exact malformed_failsIn
  | succ n =>
    rw [readFlow]
    refine .ite malformed_failsIn ?_
    refine .ite ((readFlowItems_failsIn n c.next).map _) ?_
    refine .ite ((readFlowEntries_failsIn n c.next).map _) ?_
    refine .ite ((quotedRest_failsIn true _ _).map _) ?_
    refine .ite ((quotedRest_failsIn false _ _).map _) ?_
    exact .ite (.ok _) malformed_failsIn

theorem readFlowValue_failsIn (close : Char) (n : Nat) (start t : Cursor) :
    FailsIn FaultOfEscape (readFlowValue close n start t) := by
  cases n with
  | zero => exact malformed_failsIn
  | succ n =>
    rw [readFlowValue]
    refine .ite (.ok _) <| .ite malformed_failsIn ?_
    exact .ite (.ok _) ((readFlow_failsIn n _).map _)

theorem readFlowItems_failsIn (n : Nat) (c : Cursor) :
    FailsIn FaultOfEscape (readFlowItems n c) := by
  cases n with
  | zero => exact malformed_failsIn
  | succ n =>
    rw [readFlowItems]
    refine .ite (.pure _) ((readFlow_failsIn n _).bind fun item => ?_)
    refine (readFlowValue_failsIn ']' n _ _).bind fun value => .ite (.pure _) ?_
    exact .ite ((readFlowItems_failsIn n _).bind fun items => .pure _) malformed_failsIn

theorem readFlowEntries_failsIn (n : Nat) (c : Cursor) :
    FailsIn FaultOfEscape (readFlowEntries n c) := by
  cases n with
  | zero => exact malformed_failsIn
  | succ n =>
    rw [readFlowEntries]
    refine .ite (.pure _) ((readFlow_failsIn n _).bind fun key => ?_)
    refine (readFlowValue_failsIn _ n _ _).bind fun value => .ite (.pure _) ?_
    exact .ite ((readFlowEntries_failsIn n _).bind fun entries => .pure _) malformed_failsIn

end

theorem readAtom_failsIn (n floor : Nat) (c : Cursor) :
    FailsIn FaultOfEscape (readAtom n floor c) :=
  .ite malformed_failsIn <| .ite (.ok _) <| .ite (readFlow_failsIn n c) malformed_failsIn

mutual

theorem readBlock_failsIn (n floor : Nat) (opens : Bool) (c : Cursor) :
    FailsIn FaultOfEscape (readBlock n floor opens c) := by
  cases n with
  | zero => exact malformed_failsIn
  | succ n =>
    rw [readBlock]
    refine .ite (.ite ((readItems_failsIn n _ _ c).map _) malformed_failsIn) ?_
    refine (readAtom_failsIn n floor c).bind fun atom => .ite (.ite ?_ malformed_failsIn) (.pure _)
    exact (readEntries_failsIn n _ _ _).bind fun entries => .pure _

theorem readItems_failsIn (n column : Nat) (inMapping : Bool) (c : Cursor) :
    FailsIn FaultOfEscape (readItems n column inMapping c) := by
  cases n with
  | zero => exact malformed_failsIn
  | succ n =>
    rw [readItems]
    refine (readItem_failsIn n column c).bind fun item => ?_
    refine .ite (.pure _) <| .ite malformed_failsIn <| .ite ?_ <| .ite (.pure _) malformed_failsIn
    exact (readItems_failsIn n _ _ _).bind fun items => .pure _

theorem readItem_failsIn (n column : Nat) (c : Cursor) :
    FailsIn FaultOfEscape (readItem n column c) := by
  cases n with
  | zero => exact malformed_failsIn
  | succ n =>
    rw [readItem]
    exact .ite (.ok _) (readBlock_failsIn n _ _ _)

theorem readValue_failsIn (n column : Nat) (c : Cursor) :
    FailsIn FaultOfEscape (readValue n column c) := by
  cases n with
  | zero => exact malformed_failsIn
  | succ n =>
    rw [readValue]
    refine .ite (.ok _) <| .ite (readBlock_failsIn n _ _ _) <| .ite (readBlock_failsIn n _ _ _) ?_
    exact .ite ((readItems_failsIn n _ _ _).map _) (.ok _)

theorem readEntries_failsIn (n column : Nat) (key : Document) (c : Cursor) :
    FailsIn FaultOfEscape (readEntries n column key c) := by
  cases n with
  | zero => exact malformed_failsIn
  | succ n =>
    rw [readEntries]
    refine (readValue_failsIn n column c).bind fun value => .ite (.pure _) (.ite ?_ malformed_failsIn)
    refine (readAtom_failsIn n _ _).bind fun key' => .ite ?_ malformed_failsIn
    exact (readEntries_failsIn n column _ _).bind fun entries => .pure _

end

theorem readStart_failsIn (fuel : Nat) (t : Cursor) :
    FailsIn FaultOfEscape (readStart fuel t) := by
  refine .ite (.ok _) <| .ite (.ite (.ok _) (readBlock_failsIn _ _ _ _)) ?_
  exact .ite malformed_failsIn (readBlock_failsIn _ _ _ _)

theorem parse_failsIn (text : Text) : FailsIn FaultOfEscape (parse text) := by
  refine .ite malformed_failsIn ?_
  exact (readStart_failsIn _ _).bind fun document => .ite (.pure _) malformed_failsIn

/-- Unless the text is not well formed, the reader fails by an escape with a number beyond the last
character, or by a plain scalar of the document that is unreadable. -/
theorem read_fault {text : Text} {fault : Fault} (h : read text = .error (.fault fault)) :
    (∃ code, 0x10FFFF < code ∧ fault = .notCharacter code) ∨
      ∃ document, parse text = .ok document ∧ ∃ t ∈ document.plains, Unreadable t fault := by
  rcases bind_eq_error h with hparse | ⟨document, hparse, hvalue⟩
  · exact .inl (parse_failsIn text _ hparse)
  · exact .inr ⟨document, hparse, document.value_failsIn _ hvalue⟩

end Shorthand.Document
