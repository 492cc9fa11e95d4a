import Mathlib.Data.List.TakeWhile
import Shorthand.Node
import Shorthand.Proofs.Text

/-!
# Texts in braces

A text in braces behind a node is its content and changes nothing else about it.

- `Part.scan_append`: what follows a text is read on its own, if the text does not reach into it.
- `Part.exists_read?_of_mem_scan`: where the parts of a text are read.
- `Node.parse_filled`: the node with its content.
-/

namespace Shorthand

namespace Part

theorem splitAtLast_of_not_mem {close : Char} {t : Text} (h : close ∉ t) :
    splitAtLast close t = none := by
  induction t with
  | nil => rfl
  | cons c t ih =>
    simp only [List.mem_cons, not_or] at h
    simp [splitAtLast, ih h.2, Ne.symm h.1]

/-- Behind the last `close`, anything without `close` may follow. -/
theorem splitAtLast_append {close : Char} {b : Text} (hb : close ∉ b) (a : Text) :
    splitAtLast close (a ++ b) = (splitAtLast close a).map fun p => (p.1, p.2 ++ b) := by
  induction a with
  | nil => exact splitAtLast_of_not_mem hb
  | cons c a ih =>
    simp only [List.cons_append, splitAtLast, ih]
    by_cases hn : c = '\n'
    · simp [hn]
    · cases splitAtLast close a with
      | none =>
        by_cases hc : c = close
        · subst hc
          simp [hn]
        · simp [hn, hc]
      | some p => simp [hn]

theorem span?_append {close : Char} {b : Text} (hb : close ∉ b) (a : Text) :
    span? close (a ++ b) = (span? close a).map fun p => (p.1, p.2 ++ b) := by
  rw [span?, span?, splitAtLast_append hb]
  cases splitAtLast close a with
  | none => rfl
  | some p => by_cases hp : p.1.isEmpty <;> simp [Option.filter, hp]

theorem row?_append {b : Text} (hb : ∀ c ∈ b.head?, isPartChar c = false) (a : Text) :
    row? (a ++ b) = (row? a).map fun p => (p.1, p.2 ++ b) := by
  rw [row?, row?, Text.takeWhile_append_of_head hb, Text.dropWhile_append_of_head hb]
  by_cases ha : (a.takeWhile isPartChar).isEmpty <;> simp [ha]

theorem row?_of_all {t : Text} (hne : t ≠ []) (ht : ∀ c ∈ t, isPartChar c = true) {rest : Text}
    (hrest : ∀ c ∈ rest.head?, isPartChar c = false) : row? (t ++ rest) = some (t, rest) := by
  have hself : row? t = some (t, []) := by
    rw [row?, List.takeWhile_eq_self_iff.2 ht, List.dropWhile_eq_nil_iff.2 ht]
    simpa using hne
  rw [row?_append hrest, hself]
  rfl

/-- The parts of a text do not reach into what follows, if that continues no row, closes no bracket,
and closes no brace of the text. -/
theorem read?_append {b : Text} (hhead : ∀ c ∈ b.head?, isPartChar c = false) (hb : ']' ∉ b)
    {a : Text} (hne : a ≠ []) (ha : '{' ∈ a → '}' ∉ b) :
    read? (a ++ b) = (read? a).map fun p => (p.1, p.2 ++ b) := by
  obtain ⟨c, a, rfl⟩ := List.exists_cons_of_ne_nil hne
  have hrow := row?_append hhead (c :: a)
  have hrow' := row?_append hhead a
  have hspan := span?_append hb a
  by_cases h0 : c = '{'
  · subst h0
    simp only [List.cons_append, read?, span?_append (ha List.mem_cons_self) a, Option.map_map]
    rfl
  by_cases h1 : c = '['
  · subst h1
    simp only [List.cons_append, read?, hspan, Option.map_map]
    rfl
  by_cases h2 : c = '.'
  · subst h2
    simp only [List.cons_append, read?, hrow', Option.map_map]
    rfl
  by_cases h3 : c = '#'
  · subst h3
    simp only [List.cons_append, read?, hrow', Option.map_map]
    rfl
  rw [List.cons_append] at hrow ⊢
  rw [read?, read?, hrow, Option.map_map, Option.map_map]
  · rfl
  all_goals simp_all

theorem suffix_splitAtLast {close : Char} {t : Text} {p : Text × Text}
    (h : splitAtLast close t = some p) : p.2 <:+ t := by
  induction t generalizing p with
  | nil => cases h
  | cons c t ih =>
    rw [splitAtLast] at h
    split at h
    · cases h
    · split at h
      · rename_i hs
        cases h
        exact (ih hs).trans (List.suffix_cons _ _)
      · split at h <;> cases h
        exact List.suffix_cons _ _

theorem suffix_row? {t : Text} {p : Text × Text} (h : row? t = some p) : p.2 <:+ t := by
  unfold row? at h
  split at h <;> cases h
  exact List.dropWhile_suffix _

/-- What follows a part is an end of the text. -/
theorem suffix_read? {t : Text} {p : Part × Text} (h : read? t = some p) : p.2 <:+ t := by
  unfold read? at h
  split at h <;> simp only [Option.map_eq_some_iff, reduceCtorEq] at h
  all_goals obtain ⟨q, hq, rfl⟩ := h
  · exact (suffix_splitAtLast (Option.filter_eq_some_iff.1 hq).1).trans (List.suffix_cons _ _)
  · exact (suffix_splitAtLast (Option.filter_eq_some_iff.1 hq).1).trans (List.suffix_cons _ _)
  · exact (suffix_row? hq).trans (List.suffix_cons _ _)
  · exact (suffix_row? hq).trans (List.suffix_cons _ _)
  · exact suffix_row? hq

theorem scan_of_some {t rest : Text} {part : Part} (h : read? t = some (part, rest)) :
    scan t = part :: scan rest := by
  rw [scan]
  split
  · rename_i h'
    rw [h] at h'
    cases h'
    rfl
  · rename_i h'
    rw [h] at h'
    cases h'

/-- A row of part characters that a text begins with is a word. -/
theorem scan_word {t : Text} (hne : t ≠ []) (ht : ∀ c ∈ t, isPartChar c = true) {rest : Text}
    (hrest : ∀ c ∈ rest.head?, isPartChar c = false) : scan (t ++ rest) = .word t :: scan rest := by
  refine scan_of_some ?_
  have hrow := row?_of_all hne ht hrest
  obtain ⟨c, t, rfl⟩ := List.exists_cons_of_ne_nil hne
  have hc := ht c List.mem_cons_self
  rw [List.cons_append] at hrow ⊢
  rw [read?, hrow, Option.map_some]
  · exact List.cons_ne_nil _ _
  -- the characters that open other parts are no part characters
  all_goals
    intro _ heq
    obtain ⟨rfl, -⟩ := List.cons.inj heq
    exact absurd hc (by decide)

theorem scan_of_none {c : Char} {rest : Text} (h : read? (c :: rest) = none) :
    scan (c :: rest) = scan rest := by
  rw [scan]
  split
  · rename_i h'
    rw [h] at h'
    cases h'
  · rfl

/-- What follows a text is read on its own, if it continues no row, closes no bracket, and closes no
brace of the text. -/
theorem scan_append {b : Text} (hhead : ∀ c ∈ b.head?, isPartChar c = false) (hb : ']' ∉ b)
    {a : Text} (ha : '{' ∈ a → '}' ∉ b) : scan (a ++ b) = scan a ++ scan b := by
  fun_induction scan a with
  | case1 a part rest h ih =>
    have hne : a ≠ [] := by
      rintro rfl
      cases h
    have hread := read?_append hhead hb hne ha
    rw [h] at hread
    rw [scan_of_some hread, ih fun hm => ha ((suffix_read? h).subset hm), List.cons_append]
  | case2 => rfl
  | case3 c rest h ih =>
    have hread := read?_append hhead hb (List.cons_ne_nil c rest) ha
    rw [h] at hread
    exact (scan_of_none hread).trans (ih fun hm => ha (List.mem_cons_of_mem _ hm))

theorem splitAtLast_concat {close : Char} (hclose : close ≠ '\n') {t : Text} (ht : '\n' ∉ t) :
    splitAtLast close (t ++ [close]) = some (t, []) := by
  induction t with
  | nil => simp [splitAtLast, hclose]
  | cons c t ih =>
    simp only [List.mem_cons, not_or] at ht
    simp [splitAtLast, ih ht.2, Ne.symm ht.1]

/-- A text in braces is one part. -/
theorem scan_braces {t : Text} (hne : t ≠ []) (ht : '\n' ∉ t) :
    scan ('{' :: (t ++ ['}'])) = [.content t] := by
  have hspan : span? '}' (t ++ ['}']) = some (t, []) := by
    rw [span?, splitAtLast_concat (by decide) ht]
    simpa [Option.filter] using hne
  have hread : read? ('{' :: (t ++ ['}'])) = some (.content t, []) := by
    rw [read?, hspan]
    rfl
  rw [scan_of_some hread]
  simp [scan, read?]

/-- Each part of a text was read where one of its ends begins. -/
theorem exists_read?_of_mem_scan {t : Text} {part : Part} (h : part ∈ scan t) :
    ∃ u rest, u <:+ t ∧ read? u = some (part, rest) := by
  fun_induction scan t with
  | case1 t first rest hread ih =>
    rcases List.mem_cons.1 h with rfl | h
    · exact ⟨t, rest, List.suffix_rfl, hread⟩
    · obtain ⟨u, rest', hu, hread'⟩ := ih h
      exact ⟨u, rest', hu.trans (suffix_read? hread), hread'⟩
  | case2 => cases h
  | case3 c rest hread ih =>
    obtain ⟨u, rest', hu, hread'⟩ := ih h
    exact ⟨u, rest', hu.trans (List.suffix_cons c rest), hread'⟩

/-- A content is read at a brace. -/
theorem read?_eq_content {t rest text : Text} (h : read? t = some (content text, rest)) :
    ∃ u, t = '{' :: u ∧ span? '}' u = some (text, rest) := by
  unfold read? at h
  split at h <;> simp only [Option.map_eq_some_iff, reduceCtorEq] at h
  all_goals obtain ⟨q, hq, heq⟩ := h; cases heq
  exact ⟨_, rfl, hq⟩

/-- A word is a row that the text begins with. -/
theorem read?_eq_word {t rest text : Text} (h : read? t = some (word text, rest)) :
    row? t = some (text, rest) := by
  unfold read? at h
  split at h <;> simp only [Option.map_eq_some_iff, reduceCtorEq] at h
  all_goals obtain ⟨q, hq, heq⟩ := h; cases heq
  exact hq

/-- A text without braces has no content. -/
theorem content_not_mem_scan {t : Text} (ht : '{' ∉ t) (text : Text) : content text ∉ scan t := by
  intro h
  obtain ⟨u, rest, hu, hread⟩ := exists_read?_of_mem_scan h
  obtain ⟨u, rfl, -⟩ := read?_eq_content hread
  exact ht (hu.subset List.mem_cons_self)

end Part

namespace Node

/-- Only a text in braces changes the content. -/
theorem content_foldl {table : Table} {parts : List Part} (h : ∀ t, Part.content t ∉ parts)
    (node : Node) : (parts.foldl (add table) node).content = node.content := by
  induction parts generalizing node with
  | nil => rfl
  | cons part parts ih =>
    rw [List.foldl_cons, ih fun t ht => h t (List.mem_cons_of_mem _ ht)]
    cases part with
    | content t => exact absurd List.mem_cons_self (h t)
    | _ => rfl

theorem content_parse {table : Table} {t : Text} (h : '{' ∉ t) : (parse table t).content = [] :=
  content_foldl (Part.content_not_mem_scan h) {}

/-- Attributes begin with a space. -/
theorem head_attributeText_eq (node : Node) : ∀ c ∈ node.attributeText.head?, c = ' ' := by
  intro c hc
  rw [attributeText] at hc
  generalize (if node.classes.isEmpty then [] else
    ["class=\"".toList ++ List.intercalate [' '] node.classes ++ ['"']]) ++
      node.attributes = items at hc
  cases items with
  | nil => cases hc
  | cons item items => simpa [eq_comm] using hc

/-- A text in braces behind a node without braces is its content. -/
theorem parse_filled (table : Table) {text content : Text} (h : '{' ∉ text) (hne : content ≠ [])
    (hbracket : ']' ∉ content) (hline : '\n' ∉ content) :
    parse table (text ++ '{' :: (content ++ ['}'])) = { parse table text with content } := by
  have hb : ']' ∉ '{' :: (content ++ ['}']) := by simp [hbracket]
  have hhead : ∀ c ∈ ('{' :: (content ++ ['}'])).head?, Part.isPartChar c = false := by
    intro c hc
    obtain rfl : '{' = c := by simpa using hc
    decide
  rw [parse, Part.scan_append hhead hb fun hm => absurd hm h, Part.scan_braces hne hline,
    List.foldl_append]
  rfl

end Node

end Shorthand
