import Shorthand.Expansion
import Shorthand.Proofs.Agreement
import Shorthand.Proofs.Numeral
import Shorthand.Proofs.Text

/-!
# What numbering changes

- `Unglued b`: nothing in front of `b` can make its first character part of a placeholder.
- `numberFragment_append`: before an unglued text, numbering works on both parts apart.
- `mem_numberFragment`: which characters a numbered text has; it has no placeholders
  (`not_mem_of_numberFragment`).
- `Expansion.copies_concat`: the copies of fragments end with a numbered copy of the last.
- `isVoid_numberFragment`: a numbered name is void exactly when the name is.
-/

namespace Shorthand

/-- The text is empty, or its first character continues no placeholder. -/
def Unglued (t : Text) : Prop :=
  ∀ c ∈ t.head?, c ≠ '$' ∧ c ≠ '@' ∧ c ≠ '-' ∧ isDigit c = false

theorem unglued_nil : Unglued [] := by simp [Unglued]

theorem unglued_cons {c : Char} {t : Text} :
    Unglued (c :: t) ↔ c ≠ '$' ∧ c ≠ '@' ∧ c ≠ '-' ∧ isDigit c = false := by simp [Unglued]

theorem Unglued.append {s t : Text} (hs : Unglued s) (ht : Unglued t) : Unglued (s ++ t) := by
  cases s with
  | nil => exact ht
  | cons c s => exact hs

namespace NumberPiece

open Text

theorem readStart_append {b : Text} (hb : Unglued b) (width : Nat) (a : Text) :
    readStart width (a ++ b) = ((readStart width a).1, (readStart width a).2 ++ b) := by
  have hdigit : ∀ c ∈ b.head?, isDigit c = false := fun c hc => (hb c hc).2.2.2
  cases a with
  | nil =>
    cases b with
    | nil => rfl
    | cons c b => simp [readStart, (unglued_cons.1 hb).2.1]
  | cons c a =>
    by_cases hc : c = '@'
    · subst hc
      cases a with
      | nil =>
        cases b with
        | nil => rfl
        | cons d b =>
          obtain ⟨-, -, hd, hd'⟩ := unglued_cons.1 hb
          simp [readStart, hd, hd']
      | cons d a =>
        have ht := takeWhile_append_of_head hdigit
        have hw := dropWhile_append_of_head hdigit
        by_cases hd : d = '-'
        · simp [readStart, hd, ht, hw]
        · have := ht (d :: a)
          have := hw (d :: a)
          simp_all [readStart]
    · simp [readStart, hc]

/-- Before an unglued text, the placeholders are those of both parts. -/
theorem scan_append {b : Text} (hb : Unglued b) (a : Text) : scan (a ++ b) = scan a ++ scan b := by
  have hd : ∀ c ∈ b.head?, (c == '$') = false := fun c hc => by simpa using (hb c hc).1
  fun_induction scan a with
  | case1 => rfl
  | case2 rest width after ih =>
    rw [List.cons_append, scan, if_pos rfl]
    simp only [takeWhile_append_of_head hd, dropWhile_append_of_head hd, readStart_append hb]
    rw [List.cons_append, ← ih]
  | case3 c rest hc ih =>
    rw [List.cons_append, scan, if_neg hc, ih]
    rfl

theorem scan_cons {c : Char} (hc : c ≠ '$') (t : Text) : scan (c :: t) = plain c :: scan t := by
  rw [scan, if_neg hc]

theorem readStart_parts (width : Nat) (t : Text) :
    (readStart width t).1.start <:+: t ∧ (∀ c ∈ (readStart width t).1.start, isDigit c = true) ∧
      (readStart width t).2 <:+ t := by
  have hdigits : ∀ rest : Text, ∀ c ∈ rest.takeWhile isDigit, isDigit c = true :=
    fun rest c hc => List.mem_takeWhile_imp hc
  unfold readStart
  split
  · rename_i rest
    have hrest : rest <:+ '@' :: '-' :: rest := (List.suffix_cons _ _).trans (List.suffix_cons _ _)
    exact ⟨(List.takeWhile_prefix _).isInfix.trans hrest.isInfix, hdigits rest,
      (List.dropWhile_suffix _).trans hrest⟩
  · rename_i rest _
    have hrest : rest <:+ '@' :: rest := List.suffix_cons _ _
    exact ⟨(List.takeWhile_prefix _).isInfix.trans hrest.isInfix, hdigits rest,
      (List.dropWhile_suffix _).trans hrest⟩
  · exact ⟨List.nil_infix, nofun, List.suffix_rfl⟩

/-- A character between the placeholders is one of the text, and no `$`. -/
theorem of_plain_mem_scan {t : Text} {c : Char} (h : plain c ∈ scan t) : c ∈ t ∧ c ≠ '$' := by
  fun_induction scan t with
  | case1 => cases h
  | case2 rest width after ih =>
    obtain ⟨hmem, hc⟩ := ih (by simpa using h)
    obtain ⟨-, -, hafter⟩ := readStart_parts width (rest.dropWhile (· == '$'))
    exact ⟨List.mem_cons_of_mem _ ((List.dropWhile_sublist _).subset (hafter.subset hmem)), hc⟩
  | case3 d rest hd ih =>
    rcases List.mem_cons.1 h with h | h
    · cases h
      exact ⟨List.mem_cons_self, hd⟩
    · exact ⟨List.mem_cons_of_mem _ (ih h).1, (ih h).2⟩

end NumberPiece

theorem numberFragment_nil (n times : Int) : numberFragment [] n times = .ok [] := by
  simp [numberFragment, NumberPiece.scan, pure, Except.pure]

theorem numberFragment_append {b : Text} (hb : Unglued b) (a : Text) (n times : Int) :
    numberFragment (a ++ b) n times = do
      let a' ← numberFragment a n times
      let b' ← numberFragment b n times
      return a' ++ b' := by
  simp [numberFragment, NumberPiece.scan_append hb]

theorem numberFragment_cons {c : Char} (hc : c ≠ '$') (t : Text) (n times : Int) :
    numberFragment (c :: t) n times = (c :: ·) <$> numberFragment t n times := by
  simp [numberFragment, NumberPiece.scan_cons hc, NumberPiece.fill]

/-- A text without `$` is its own numbered text. -/
theorem numberFragment_of_not_mem {t : Text} (h : '$' ∉ t) (n times : Int) :
    numberFragment t n times = .ok t := by
  induction t with
  | nil => exact numberFragment_nil n times
  | cons c t ih =>
    simp only [List.mem_cons, not_or] at h
    rw [numberFragment_cons (Ne.symm h.1), ih h.2, ok_map]

/-- Numbering keeps a first character that is no `$`. -/
theorem numberFragment_cons_eq_ok {c : Char} {t t' : Text} {n times : Int} (hc : c ≠ '$')
    (h : numberFragment (c :: t) n times = .ok t') :
    ∃ u, numberFragment t n times = .ok u ∧ t' = c :: u := by
  rw [numberFragment_cons hc] at h
  obtain ⟨u, hu, rfl⟩ := map_eq_ok h
  exact ⟨u, hu, rfl⟩

/-! ## Filled placeholders -/

/-- A written number holds a digit, and nothing but digits and the sign. -/
theorem writeNumeral_chars {z : Int} {t : Text} (h : writeNumeral z = .ok t) :
    (∃ c ∈ t, c.isDigit) ∧ ∀ c ∈ t, c.isDigit ∨ c = '-' := by
  have hne : decimalDigits z.natAbs ≠ [] := Nat.toDigits_ne_nil
  obtain ⟨c, hc⟩ := List.exists_mem_of_ne_nil _ hne
  unfold writeNumeral at h
  simp only at h
  split at h
  · cases h
  · split at h <;> cases h
    · exact ⟨⟨c, by simp [hc], isDigit_of_mem_decimalDigits hc⟩, fun d hd =>
        (List.mem_cons.1 hd).elim .inr fun hd => .inl (isDigit_of_mem_decimalDigits hd)⟩
    · exact ⟨⟨c, hc, isDigit_of_mem_decimalDigits hc⟩,
        fun d hd => .inl (isDigit_of_mem_decimalDigits hd)⟩

/-- What a placeholder is filled with: a number counted from its start, written and padded. -/
theorem Placeholder.fill_eq_ok {p : Placeholder} {n times : Int} {t : Text}
    (h : p.fill n times = .ok t) :
    ∃ offset value, p.offset times = .ok offset ∧
      writeNumeral (if p.descending then offset - n else offset + n) = .ok value ∧
      t = pad p.width value := by
  obtain ⟨offset, hoffset, h⟩ := bind_eq_ok h
  obtain ⟨value, hvalue, h⟩ := bind_eq_ok h
  cases h
  exact ⟨offset, value, hoffset, hvalue, rfl⟩

theorem Placeholder.fill_chars {p : Placeholder} {n times : Int} {t : Text}
    (h : p.fill n times = .ok t) : (∃ c ∈ t, c.isDigit) ∧ ∀ c ∈ t, c.isDigit ∨ c = '-' := by
  obtain ⟨_, value, _, hv, rfl⟩ := fill_eq_ok h
  obtain ⟨⟨c, hc, hd⟩, hall⟩ := writeNumeral_chars hv
  refine ⟨⟨c, by simp [pad, hc], hd⟩, fun c hc => ?_⟩
  rcases List.mem_append.1 hc with hc | hc
  · rw [(List.mem_replicate.1 hc).2]
    exact .inl rfl
  · exact hall c hc

/-- Each member of a list has its partner in a related list. -/
theorem exists_mem_of_forall₂ {α β : Type} {R : α → β → Prop} {xs : List α} {ys : List β} {x : α}
    (h : List.Forall₂ R xs ys) (hx : x ∈ xs) : ∃ y ∈ ys, R x y := by
  induction h with
  | nil => simp at hx
  | cons hr _ ih =>
    rcases List.mem_cons.1 hx with rfl | hx
    · exact ⟨_, List.mem_cons_self, hr⟩
    · obtain ⟨y, hy, hxy⟩ := ih hx
      exact ⟨y, List.mem_cons_of_mem _ hy, hxy⟩

/-- The characters of a numbered text are those of the text, less the `$`, and those of numbers. -/
theorem mem_numberFragment {t t' : Text} {n times : Int} {c : Char}
    (h : numberFragment t n times = .ok t') (hc : c ∈ t') :
    (c ∈ t ∧ c ≠ '$') ∨ c.isDigit ∨ c = '-' := by
  obtain ⟨us, hus, h⟩ := bind_eq_ok h
  cases h
  obtain ⟨u, hu, hc⟩ := List.mem_flatten.1 hc
  obtain ⟨piece, hpiece, hfill⟩ := exists_mem_of_forall₂ (mapM_eq_ok_iff.1 hus).flip hu
  cases piece with
  | plain d =>
    cases hfill
    rw [List.mem_singleton.1 hc]
    exact .inl (NumberPiece.of_plain_mem_scan hpiece)
  | slot p => exact .inr ((Placeholder.fill_chars hfill).2 c hc)

/-- A numbered text has no placeholders. -/
theorem not_mem_of_numberFragment {t t' : Text} {n times : Int}
    (h : numberFragment t n times = .ok t') : '$' ∉ t' := fun hc => by
  rcases mem_numberFragment h hc with ⟨-, hc⟩ | hc
  · exact hc rfl
  · revert hc
    decide

theorem NumberPiece.exists_slot_of_mem {t : Text} (h : '$' ∈ t) : ∃ p, slot p ∈ scan t := by
  induction t with
  | nil => simp at h
  | cons c t ih =>
    by_cases hc : c = '$'
    · rw [scan, if_pos hc]
      exact ⟨_, List.mem_cons_self⟩
    · obtain ⟨p, hp⟩ := ih (by simpa [Ne.symm hc] using h)
      exact ⟨p, by simp [scan_cons hc, hp]⟩

/-- A numbered text that had a placeholder holds a digit. -/
theorem exists_digit_of_numberFragment {t t' : Text} {n times : Int} (hm : '$' ∈ t)
    (h : numberFragment t n times = .ok t') : ∃ c ∈ t', c.isDigit := by
  obtain ⟨p, hp⟩ := NumberPiece.exists_slot_of_mem hm
  obtain ⟨us, hus, h⟩ := bind_eq_ok h
  cases h
  obtain ⟨u, hu, hfill⟩ := exists_mem_of_forall₂ (mapM_eq_ok_iff.1 hus) hp
  obtain ⟨⟨c, hc, hd⟩, -⟩ := Placeholder.fill_chars hfill
  exact ⟨c, List.mem_flatten.2 ⟨u, hu, hc⟩, hd⟩

/-- A placeholder at the start becomes a digit or a sign. -/
theorem head_numberFragment_slot {t t' : Text} {n times : Int}
    (h : numberFragment ('$' :: t) n times = .ok t') : ∃ c u, t' = c :: u ∧ (c.isDigit ∨ c = '-') := by
  obtain ⟨us, hus, h⟩ := bind_eq_ok h
  cases h
  rw [NumberPiece.scan, if_pos rfl, List.mapM_cons] at hus
  obtain ⟨v, hv, hus⟩ := bind_eq_ok hus
  obtain ⟨vs, -, hus⟩ := bind_eq_ok hus
  cases hus
  obtain ⟨⟨c, hc, -⟩, hall⟩ := Placeholder.fill_chars hv
  cases v with
  | nil => simp at hc
  | cons d v => exact ⟨d, v ++ vs.flatten, by simp, hall d (by simp)⟩

/-- Numbering neither brings nor takes away a first character that is no part of a placeholder or a
number. -/
theorem head?_numberFragment {t t' : Text} {n times : Int}
    (h : numberFragment t n times = .ok t') {d : Char}
    (hd : d ≠ '$' ∧ d ≠ '-' ∧ d.isDigit = false) :
    (t'.head? == some d) = (t.head? == some d) := by
  cases t with
  | nil =>
    rw [numberFragment_nil] at h
    cases h
    rfl
  | cons c t =>
    by_cases hc : c = '$'
    · subst hc
      obtain ⟨e, u, rfl, he⟩ := head_numberFragment_slot h
      have hne : e ≠ d := by
        rintro rfl
        rcases he with he | he
        · exact absurd he (by simp [hd.2.2])
        · exact hd.2.1 he
      simp [hne, Ne.symm hd.1]
    · obtain ⟨u, -, rfl⟩ := numberFragment_cons_eq_ok hc h
      rfl

/-! ## Copies -/

namespace Expansion

theorem copies_zero (template : List Text) : copies template 0 = .ok [] := rfl

/-- The copies end with the numbered end of the template. -/
theorem copies_concat {template fragments : List Text} {last : Text} {times : Nat}
    (h : copies (template ++ [last]) (times + 1) = .ok fragments) :
    ∃ before last', fragments = before ++ [last'] ∧
      numberFragment last times (times + 1 : Nat) = .ok last' := by
  obtain ⟨parts, hparts, h⟩ := bind_eq_ok h
  cases h
  rw [List.range_succ, List.mapM_append] at hparts
  obtain ⟨firsts, -, hparts⟩ := bind_eq_ok hparts
  obtain ⟨final, hfinal, hparts⟩ := bind_eq_ok hparts
  cases hparts
  rw [List.mapM_cons] at hfinal
  obtain ⟨part, hpart, hfinal⟩ := bind_eq_ok hfinal
  cases hfinal
  rw [List.mapM_append] at hpart
  obtain ⟨start, -, hpart⟩ := bind_eq_ok hpart
  obtain ⟨ends, hends, hpart⟩ := bind_eq_ok hpart
  cases hpart
  rw [List.mapM_cons] at hends
  obtain ⟨last', hlast, hends⟩ := bind_eq_ok hends
  cases hends
  exact ⟨firsts.flatten ++ start, last', by simp, hlast⟩

end Expansion

/-! ## Void names -/

theorem isAlpha_eq_false_iff {c : Char} : c.isAlpha = false ↔
    ¬(65 ≤ c.toNat ∧ c.toNat ≤ 90) ∧ ¬(97 ≤ c.toNat ∧ c.toNat ≤ 122) := by
  have hupper : c.isUpper = decide (65 ≤ c.toNat ∧ c.toNat ≤ 90) := rfl
  have hlower : c.isLower = decide (97 ≤ c.toNat ∧ c.toNat ≤ 122) := by
    rw [Bool.decide_and]
    rfl
  rw [← decide_eq_false_iff_not, ← decide_eq_false_iff_not, ← hupper, ← hlower]
  exact Bool.or_eq_false_iff

theorem lowerChar_of_not_alpha {c : Char} (h : c.toNat < 128) (ha : c.isAlpha = false) :
    lowerChar c = c := by
  simp only [lowerChar, if_pos h]
  exact dif_neg (isAlpha_eq_false_iff.1 ha).1

/-- A basic character that is no letter keeps its place in the lower-case form. -/
theorem mem_lower {c : Char} {t : Text} (h : c.toNat < 128) (ha : c.isAlpha = false) (hc : c ∈ t) :
    c ∈ lower t := by
  have key : ∀ before, c ∈ lowerAfter before t := by
    induction t with
    | nil => simp at hc
    | cons d t ih =>
      intro before
      rw [lowerAfter]
      rcases List.mem_cons.1 hc with rfl | hc
      · have h1 : c ≠ 'İ' := by rintro rfl; simp at h
        have h2 : c ≠ 'Σ' := by rintro rfl; simp at h
        simp [h1, h2, lowerChar_of_not_alpha h ha]
      · exact List.mem_append_right _ (ih hc _)
  exact key []

theorem isAlpha_of_mem_voidTags {tag : Text} (h : tag ∈ voidTags) {c : Char} (hc : c ∈ tag) :
    c.isAlpha = true := by
  have hall : voidTags.all (·.all Char.isAlpha) = true := by decide
  exact List.all_eq_true.1 (List.all_eq_true.1 hall tag h) c hc

/-- Void tags consist of letters. -/
theorem contains_voidTags_lower {c : Char} {t : Text} (h : c.toNat < 128) (ha : c.isAlpha = false)
    (hc : c ∈ t) : voidTags.contains (lower t) = false := by
  rw [Bool.eq_false_iff]
  intro hv
  have := isAlpha_of_mem_voidTags (List.contains_iff_mem.1 hv) (mem_lower h ha hc)
  rw [ha] at this
  cases this

theorem not_alpha_of_isDigit {c : Char} (h : c.isDigit) : c.toNat < 128 ∧ c.isAlpha = false := by
  obtain ⟨hlow, hhigh⟩ := Char.isDigit_iff_toNat.1 h
  have hnine : '9'.toNat = 57 := rfl
  rw [isAlpha_eq_false_iff]
  omega

/-- A numbered name is void exactly when the name is. -/
theorem isVoid_numberFragment {name name' : Text} {n times : Int}
    (h : numberFragment name n times = .ok name') : isVoid name' = isVoid name := by
  by_cases hm : '$' ∈ name
  · obtain ⟨d, hd, hdigit⟩ := exists_digit_of_numberFragment hm h
    obtain ⟨hlt, ha⟩ := not_alpha_of_isDigit hdigit
    rw [isVoid, isVoid, head?_numberFragment h (by decide), contains_voidTags_lower hlt ha hd,
      contains_voidTags_lower (by decide) (by decide) hm]
  · rw [numberFragment_of_not_mem hm] at h
    cases h
    rfl

end Shorthand
