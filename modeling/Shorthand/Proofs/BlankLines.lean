import Shorthand.Proofs.KeptLines

/-!
# Blank lines

Blank lines are passed over when lines are joined. But the third line of a text, blank or not,
chooses the unit of indentation for all of it.

- `startsWithOneSpace`: what the third line is looked at for; `usesWideUnits_eq`.
- `IsIndentedByUnits`: a line is indented by tabs and pairs of spaces.
- `joinLines_insert`: where a blank line is put in does not matter to the joining.
- `inlineIndentation_insertBlank`: a blank line changes nothing, unless it becomes the third line
  and starts with exactly one space.
-/

namespace Shorthand

variable {t line w : Text} {front back : List Text}

/-! ## Lines of a text -/

theorem newline_not_mem_of_mem_splitOn (h : line ∈ t.splitOn '\n') : '\n' ∉ line := by
  induction t generalizing line with
  | nil =>
    rw [List.splitOn_nil, List.mem_singleton] at h
    simp [h]
  | cons c t ih =>
    rw [List.splitOn_cons_eq_if_modifyHead] at h
    split at h
    · rcases List.mem_cons.1 h with rfl | h
      · exact List.not_mem_nil
      · exact ih h
    · rename_i hc
      obtain ⟨first, rest, hsplit⟩ := List.exists_cons_of_ne_nil (List.splitOn_ne_nil '\n' t)
      rw [hsplit, List.modifyHead_cons] at h
      rcases List.mem_cons.1 h with rfl | h
      · have hfirst : '\n' ∉ first := ih (by simp [hsplit])
        exact List.not_mem_cons_of_ne_of_not_mem (fun heq => hc (by simp [← heq])) hfirst
      · exact ih (by simp [hsplit, h])

/-- With a line put in, the lines of a text are those with the line among them. -/
theorem splitOn_insert (hlines : t.splitOn '\n' = front ++ back) (hw : '\n' ∉ w) :
    (List.intercalate ['\n'] (front ++ w :: back)).splitOn '\n' = front ++ w :: back := by
  refine List.splitOn_intercalate '\n' (fun line hline => ?_) (by simp)
  rw [List.mem_append, List.mem_cons] at hline
  rcases hline with hline | rfl | hline
  · exact newline_not_mem_of_mem_splitOn (hlines ▸ List.mem_append_left back hline)
  · exact hw
  · exact newline_not_mem_of_mem_splitOn (hlines ▸ List.mem_append_right front hline)

/-! ## Units of indentation -/

/-- A line starts with exactly one space. -/
def startsWithOneSpace : Text → Bool
  | ' ' :: rest => rest.head? != some ' '
  | _ => false

theorem usesWideUnits_eq (lines : List Text) :
    usesWideUnits lines = lines[2]?.any startsWithOneSpace := by
  rw [usesWideUnits]
  cases lines[2]? with
  | none => rfl
  | some line =>
    rw [Option.any_some]
    unfold startsWithOneSpace
    rcases line with _ | ⟨c, rest⟩
    · rfl
    · by_cases hc : c = ' ' <;> simp [hc]

/-- The white space that a line begins with consists of tabs and pairs of spaces. -/
def IsIndentedByUnits (line : Text) : Prop :=
  ∃ indent : List IndentUnit, line.takeWhile isBlank = indent.flatMap IndentUnit.text

theorem IsIndentedByUnits.startsWithOneSpace (h : IsIndentedByUnits line) :
    startsWithOneSpace line = false := by
  obtain ⟨indent, hindent⟩ := h
  unfold Shorthand.startsWithOneSpace
  split
  · rename_i rest
    rw [List.takeWhile_cons_of_pos (by decide)] at hindent
    -- the space is the first of a pair
    match indent with
    | [] => cases hindent
    | .tab :: indent => cases (List.cons.inj hindent).1
    | .spaces :: indent =>
      have hrest : rest.takeWhile isBlank = ' ' :: indent.flatMap IndentUnit.text :=
        (List.cons.inj hindent).2
      cases rest with
      | nil => cases hrest
      | cons c rest =>
        by_cases hc : isBlank c = true
        · rw [List.takeWhile_cons_of_pos hc] at hrest
          simp [(List.cons.inj hrest).1]
        · rw [List.takeWhile_cons_of_neg hc] at hrest
          cases hrest
  · rfl

/-- A text whose lines are indented by units has narrow units. -/
theorem usesWideUnits_of_units {lines : List Text} (h : ∀ line ∈ lines, IsIndentedByUnits line) :
    usesWideUnits lines = false := by
  rw [usesWideUnits_eq]
  cases hthird : lines[2]? with
  | none => rfl
  | some line => exact (h line (List.mem_of_getElem? hthird)).startsWithOneSpace

/-- A line put in among lines that are indented by units chooses the units only as the third. -/
theorem usesWideUnits_insert (h : ∀ line ∈ front ++ back, IsIndentedByUnits line) (w : Text) :
    usesWideUnits (front ++ w :: back) = true ↔
      front.length = 2 ∧ startsWithOneSpace w = true := by
  have hothers : ∀ line, line ∈ front ∨ line ∈ back → startsWithOneSpace line = false :=
    fun line hline => (h line (List.mem_append.2 hline)).startsWithOneSpace
  rw [usesWideUnits_eq, List.getElem?_append]
  split
  · rename_i hlt
    rw [List.getElem?_eq_getElem hlt, Option.any_some, hothers _ (.inl (List.getElem_mem hlt))]
    simp
    omega
  · rename_i hge
    rw [List.getElem?_cons]
    split
    · rename_i hzero
      have hlength : front.length = 2 := by omega
      simp [hlength]
    · rename_i hpos
      cases hthird : back[2 - front.length - 1]? with
      | none => simp; omega
      | some line =>
        rw [Option.any_some, hothers line (.inr (List.mem_of_getElem? hthird))]
        simp
        omega

/-! ## Joining -/

/-- Where a blank line is put in does not matter to the joining. -/
theorem joinLines_insert (hw : w.all isBlank = true) (wide : Bool) (reached : Int) :
    joinLines wide reached (front ++ w :: back) = joinLines wide reached (front ++ back) := by
  rw [← joinLines_filter, ← joinLines_filter wide reached (front ++ back), List.filter_append,
    List.filter_append, List.filter_cons_of_neg (by simp [hw])]

theorem indentLevel_tabs (n : Nat) {rest : Text} (h : ∀ c ∈ rest.head?, isBlank c = false)
    (wide : Bool) : indentLevel wide (List.replicate n '\t' ++ rest) = n := by
  induction n with
  | zero =>
    cases rest with
    | nil => cases wide <;> rfl
    | cons c rest =>
      have hc := h c rfl
      have htab : c ≠ '\t' := by rintro rfl; cases hc
      have hspace : c ≠ ' ' := by rintro rfl; cases hc
      simp [indentLevel, htab, hspace]
  | succ n ih => rw [List.replicate_succ, List.cons_append, indentLevel, ih]

/-- The unit does not matter to lines whose level is the same with both. -/
theorem joinLines_congr {lines : List Text}
    (h : ∀ line ∈ lines, indentLevel true line = indentLevel false line) (reached : Int) :
    joinLines true reached lines = joinLines false reached lines := by
  induction lines generalizing reached with
  | nil => rfl
  | cons line lines ih =>
    obtain ⟨hline, hlines⟩ := List.forall_mem_cons.1 h
    simp only [joinLines, levelAfter, hline, ih hlines]

theorem indentLevel_of_tabs {n : Nat} (h : line.takeWhile isBlank = List.replicate n '\t')
    (wide : Bool) : indentLevel wide line = n := by
  have hrest : ∀ c ∈ (line.dropWhile isBlank).head?, isBlank c = false := by
    intro c hc
    have := List.head?_dropWhile_not isBlank line
    simp_all
  rw [← List.takeWhile_append_dropWhile (p := isBlank) (l := line), h]
  exact indentLevel_tabs n hrest wide

/-- **Blank lines do not matter**, unless one becomes the third line and starts with exactly one
space. All lines are then read with wide units of indentation, which makes no difference to lines
that are indented by tabs. -/
theorem inlineIndentation_insertBlank (ht : ∀ line ∈ t.splitOn '\n', IsIndentedByUnits line)
    (hlines : t.splitOn '\n' = front ++ back) (hw : w.all isBlank = true) (hw' : '\n' ∉ w) :
    let inserted := List.intercalate ['\n'] (front ++ w :: back)
    let third := front.length = 2 ∧ startsWithOneSpace w = true
    (¬ third → inlineIndentation inserted = inlineIndentation t) ∧
    (third → inlineIndentation inserted = joinLines true (-1) (t.splitOn '\n')) ∧
    ((∀ line ∈ t.splitOn '\n', ∃ n, line.takeWhile isBlank = List.replicate n '\t') →
      inlineIndentation inserted = inlineIndentation t) := by
  intro inserted third
  have hsplit : inserted.splitOn '\n' = front ++ w :: back := splitOn_insert hlines hw'
  have hthird : usesWideUnits (front ++ w :: back) = true ↔ third :=
    usesWideUnits_insert (hlines ▸ ht) w
  have hplain : inlineIndentation t = joinLines false (-1) (t.splitOn '\n') := by
    rw [inlineIndentation]
    simp only [usesWideUnits_of_units ht]
  have hinserted : inlineIndentation inserted =
      joinLines (usesWideUnits (front ++ w :: back)) (-1) (t.splitOn '\n') := by
    rw [inlineIndentation]
    simp only [hsplit, hlines, joinLines_insert hw]
  have hnarrow : ¬ third → inlineIndentation inserted = inlineIndentation t := by
    intro h
    rw [hinserted, Bool.eq_false_iff.2 fun hwide => h (hthird.1 hwide), hplain]
  have hwide : third → inlineIndentation inserted = joinLines true (-1) (t.splitOn '\n') := by
    intro h
    rw [hinserted, hthird.2 h]
  refine ⟨hnarrow, hwide, fun htabs => ?_⟩
  by_cases h : third
  · rw [hwide h, hplain]
    refine joinLines_congr (fun line hline => ?_) (-1)
    obtain ⟨n, hn⟩ := htabs line hline
    rw [indentLevel_of_tabs hn, indentLevel_of_tabs hn]
  · exact hnarrow h

/-- A third line that is blank and starts with a tab -/
theorem inlineIndentation_insertBlank_tab :
    let t := "a\n\tb\n  c".toList
    let w := "\t ".toList
    (∀ line ∈ t.splitOn '\n', IsIndentedByUnits line) ∧ w.all isBlank = true ∧ '\n' ∉ w ∧
      inlineIndentation "a\n\tb\n\t \n  c".toList = "a>b+c".toList := by
  intro t w
  have hlines : t.splitOn '\n' = ["a".toList, "\tb".toList] ++ ["  c".toList] := by decide +kernel
  have hunits : ∀ line ∈ t.splitOn '\n', IsIndentedByUnits line := by
    rw [hlines]
    exact List.forall_mem_cons.2 ⟨⟨[], by decide⟩, List.forall_mem_cons.2
      ⟨⟨[.tab], by decide⟩, List.forall_mem_singleton.2 ⟨[.spaces], by decide⟩⟩⟩
  have hblank : w.all isBlank = true := by decide
  have hnewline : '\n' ∉ w := by decide
  refine ⟨hunits, hblank, hnewline, ?_⟩
  have hsame := (inlineIndentation_insertBlank hunits hlines hblank hnewline).1 (by decide)
  exact hsame.trans (by decide +kernel)

/-- A third line of one space -/
theorem inlineIndentation_thirdBlank :
    let t := "a\n  b\n  c".toList
    let inserted := "a\n  b\n \n  c".toList
    t.splitOn '\n' = ["a".toList, "  b".toList, "  c".toList] ∧
      inserted.splitOn '\n' = ["a".toList, "  b".toList, [' '], "  c".toList] ∧
      (∀ line ∈ t.splitOn '\n', IsIndentedByUnits line) ∧
      inlineIndentation t = "a>b+c".toList ∧ inlineIndentation inserted = "a+b+c".toList := by
  intro t inserted
  have hlines : t.splitOn '\n' = ["a".toList, "  b".toList, "  c".toList] := by decide +kernel
  refine ⟨hlines, by decide +kernel, ?_, by decide +kernel, by decide +kernel⟩
  rw [hlines]
  exact List.forall_mem_cons.2 ⟨⟨[], by decide⟩, List.forall_mem_cons.2
    ⟨⟨[.spaces], by decide⟩, List.forall_mem_singleton.2 ⟨[.spaces], by decide⟩⟩⟩

end Shorthand
