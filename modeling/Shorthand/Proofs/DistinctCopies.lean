import Shorthand.Proofs.Numbering

/-!
# Copies differ

No two copies of a fragment with one placeholder are the same text.

- `signedValue`: reads a written number back, whatever zeros stand in front of it, also in front of
  its sign (`signedValue_pad`). So padding hides no difference, although its width depends on the
  number.
- `Placeholder.fill_injective`: a placeholder is filled with different texts in different copies.
- `NumberPiece.placeholders`: the placeholders of a fragment; `NumberPiece.exists_mapM_fill_plain`:
  a row without them is the same in all copies.
- `numberFragment_ne`: the copies of a fragment with one placeholder are different texts.
-/

namespace Shorthand

/-! ## Written numbers -/

/-- The number that digits and a minus sign write. Zeros may stand in front of the digits, and in
front of the sign. -/
def signedValue (t : Text) : Int :=
  if '-' ∈ t then -digitsValue t else digitsValue t

/-- A character worth nothing in front of a row of digits leaves its value as it is. -/
theorem digitsValue_cons {c : Char} (h : (digitValue? c).getD 0 = 0) (t : Text) :
    digitsValue (c :: t) = digitsValue t := by
  simp [digitsValue, h]

theorem digitsValue_sign (t : Text) : digitsValue ('-' :: t) = digitsValue t :=
  digitsValue_cons (by decide) t

theorem digitsValue_replicate_append (k : Nat) (t : Text) :
    digitsValue (List.replicate k '0' ++ t) = digitsValue t := by
  induction k with
  | zero => rfl
  | succ k ih => rw [List.replicate_succ, List.cons_append, digitsValue_cons (by decide), ih]

theorem signedValue_pad (width : Nat) (t : Text) :
    signedValue (Placeholder.pad width t) = signedValue t := by
  simp [signedValue, Placeholder.pad, digitsValue_replicate_append]

theorem sign_not_mem_decimalDigits (n : Nat) : '-' ∉ decimalDigits n := by
  intro h
  have := isDigit_of_mem_decimalDigits h
  revert this
  decide

theorem signedValue_writeNumeral {z : Int} {t : Text} (h : writeNumeral z = .ok t) :
    signedValue t = z := by
  have hsign := sign_not_mem_decimalDigits z.natAbs
  have hvalue := digitsValue_decimalDigits z.natAbs
  simp only [writeNumeral] at h
  split at h
  · cases h
  · split at h <;> cases h
    · simp only [signedValue, List.mem_cons, true_or, if_true, digitsValue_sign, hvalue]
      omega
    · simp only [signedValue, hsign, if_false, hvalue]
      omega

/-- What a placeholder is filled with tells the number of the copy. -/
theorem Placeholder.fill_injective {p : Placeholder} {n m times : Int} {t : Text}
    (hn : p.fill n times = .ok t) (hm : p.fill m times = .ok t) : n = m := by
  obtain ⟨offset, value, hoffset, hvalue, rfl⟩ := fill_eq_ok hn
  obtain ⟨offset', value', hoffset', hvalue', hpad⟩ := fill_eq_ok hm
  rw [hoffset, Except.ok.injEq] at hoffset'
  subst hoffset'
  have hsame : signedValue value = signedValue value' := by
    rw [← signedValue_pad p.width value, hpad, signedValue_pad]
  rw [signedValue_writeNumeral hvalue, signedValue_writeNumeral hvalue'] at hsame
  grind

/-! ## Fragments -/

namespace NumberPiece

/-- The placeholders among pieces, in their order. -/
def slots : List NumberPiece → List Placeholder
  | [] => []
  | plain _ :: pieces => slots pieces
  | slot p :: pieces => p :: slots pieces

/-- The placeholders of a fragment, in their order. -/
def placeholders (fragment : Text) : List Placeholder :=
  slots (scan fragment)

/-- A row without placeholders is the same in all copies. -/
theorem exists_mapM_fill_plain {pieces : List NumberPiece} (h : slots pieces = []) :
    ∃ us, ∀ n times, pieces.mapM (fill n times) = .ok us := by
  induction pieces with
  | nil => exact ⟨[], fun _ _ => rfl⟩
  | cons piece pieces ih =>
    cases piece with
    | slot p => cases h
    | plain c =>
      obtain ⟨us, hus⟩ := ih h
      refine ⟨[c] :: us, fun n times => ?_⟩
      rw [List.mapM_cons, hus]
      rfl

/-- The only placeholder among pieces stands between two rows without any. -/
theorem exists_eq_of_slots {pieces : List NumberPiece} {p : Placeholder} (h : slots pieces = [p]) :
    ∃ before after, pieces = before ++ slot p :: after ∧ slots before = [] ∧ slots after = [] := by
  induction pieces with
  | nil => cases h
  | cons piece pieces ih =>
    cases piece with
    | slot q =>
      obtain ⟨rfl, hafter⟩ := List.cons.inj h
      exact ⟨[], pieces, rfl, rfl, hafter⟩
    | plain c =>
      obtain ⟨before, after, rfl, hbefore, hafter⟩ := ih h
      exact ⟨plain c :: before, after, rfl, hbefore, hafter⟩

end NumberPiece

/-- The copies of a fragment with one placeholder differ in what fills it alone. -/
theorem exists_numberFragment_eq {fragment : Text} {p : Placeholder}
    (h : NumberPiece.placeholders fragment = [p]) :
    ∃ before after : Text, ∀ n times,
      numberFragment fragment n times = (fun u => before ++ u ++ after) <$> p.fill n times := by
  obtain ⟨before, after, hscan, hbefore, hafter⟩ := NumberPiece.exists_eq_of_slots h
  obtain ⟨us, hus⟩ := NumberPiece.exists_mapM_fill_plain hbefore
  obtain ⟨vs, hvs⟩ := NumberPiece.exists_mapM_fill_plain hafter
  refine ⟨us.flatten, vs.flatten, fun n times => ?_⟩
  rw [numberFragment, hscan, List.mapM_append, List.mapM_cons, hus, hvs]
  cases hfill : NumberPiece.fill n times (.slot p) with
  | error f =>
    have hfill : p.fill n times = .error f := hfill
    rw [hfill]
    rfl
  | ok u =>
    have hfill : p.fill n times = .ok u := hfill
    simp [hfill, pure, Except.pure]

/-- **Numbered copies are distinct.** However wide a placeholder is, wherever it starts and whether
it counts up or down, two different copies of a fragment with this placeholder alone are different
texts. -/
theorem numberFragment_ne {fragment : Text} {p : Placeholder}
    (h : NumberPiece.placeholders fragment = [p]) {n m times : Int} (hne : n ≠ m) {t u : Text}
    (ht : numberFragment fragment n times = .ok t) (hu : numberFragment fragment m times = .ok u) :
    t ≠ u := by
  rintro rfl
  obtain ⟨before, after, hfragment⟩ := exists_numberFragment_eq h
  rw [hfragment] at ht hu
  obtain ⟨v, hv, rfl⟩ := map_eq_ok ht
  obtain ⟨w, hw, heq⟩ := map_eq_ok hu
  obtain rfl : w = v := by simpa using heq
  exact hne (Placeholder.fill_injective hv hw)

/-- Copies 0 and 3 of a fragment that counts down from 2, below zero, with room for five digits -/
theorem numberFragment_ne_below_zero :
    NumberPiece.placeholders "<b$$$$$@-2>".toList = [⟨5, true, ['2']⟩] ∧ (0 : Int) ≠ 3 ∧
      numberFragment "<b$$$$$@-2>".toList 0 4 = .ok "<b0002>".toList ∧
      numberFragment "<b$$$$$@-2>".toList 3 4 = .ok "<b0-1>".toList ∧
      "<b0002>".toList ≠ "<b0-1>".toList := by
  have hone : NumberPiece.placeholders "<b$$$$$@-2>".toList = [⟨5, true, ['2']⟩] := by
    decide +kernel
  have hfirst : numberFragment "<b$$$$$@-2>".toList 0 4 = .ok "<b0002>".toList := by
    decide +kernel
  have hlast : numberFragment "<b$$$$$@-2>".toList 3 4 = .ok "<b0-1>".toList := by
    decide +kernel
  have hne : (0 : Int) ≠ 3 := by decide
  exact ⟨hone, hne, hfirst, hlast, numberFragment_ne hone hne hfirst hlast⟩

end Shorthand
