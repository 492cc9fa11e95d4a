import Shorthand.Text.Basic
import Shorthand.Text.Blank

/-!
# Characters of one kind

- `Text.takeWhile_append_of_head`: a row of characters of one kind ends where a text begins with a
  character of another kind.
- `of_all_blankChars`: what holds of the blank characters one by one.
-/

namespace Shorthand

/-! ## Rows -/

namespace Text

variable {p : Char → Bool} {b : Text}

theorem takeWhile_append_of_head (hb : ∀ c ∈ b.head?, p c = false) (a : Text) :
    (a ++ b).takeWhile p = a.takeWhile p := by
  induction a with
  | nil => cases b <;> simp_all
  | cons c a ih => by_cases hc : p c <;> simp [hc, ih]

theorem dropWhile_append_of_head (hb : ∀ c ∈ b.head?, p c = false) (a : Text) :
    (a ++ b).dropWhile p = a.dropWhile p ++ b := by
  induction a with
  | nil => cases b <;> simp_all
  | cons c a ih => by_cases hc : p c <;> simp [hc, ih]

end Text

/-! ## Blank characters -/

/-- The set goes on behind its first two points. -/
theorem CodeSet.contains_cons_cons {a b n : Nat} {s : CodeSet} :
    CodeSet.contains (a :: b :: s) n = true ↔ a ≤ n ∧ (n < b ∨ s.contains n = true) := by
  by_cases ha : a ≤ n
  · rcases Nat.lt_or_ge n b with hb | hb
    · simp [contains, ha, hb, Nat.not_le.2 hb]
    · simp [contains, ha, hb, Nat.not_lt.2 hb]
      omega
  · simp [contains, ha]

/-- The blank characters. -/
def blankChars : Text :=
  (List.range' 9 5 ++ List.range' 28 5 ++ [133, 160, 5760] ++ List.range' 8192 11 ++
    [8232, 8233, 8239, 8287, 12288]).map Char.ofNat

theorem mem_blankChars {c : Char} (h : isBlank c = true) : c ∈ blankChars := by
  have hnone : CodeSet.contains [] c.toNat = false := rfl
  simp only [isBlank, blankCodes, CodeSet.contains_cons_cons, hnone, Bool.false_eq_true,
    or_false] at h
  rw [← Char.ofNat_toNat c]
  refine List.mem_map_of_mem ?_
  simp only [List.mem_append, List.mem_range'_1, List.mem_cons, List.not_mem_nil, or_false]
  omega

/-- What holds of each of the blank characters holds of all white space. -/
theorem of_all_blankChars {p : Char → Bool} (hall : blankChars.all p = true) {c : Char}
    (h : isBlank c = true) : p c = true :=
  List.all_eq_true.1 hall c (mem_blankChars h)

end Shorthand
