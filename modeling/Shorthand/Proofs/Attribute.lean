import Mathlib.Data.List.TakeWhile
import Shorthand.Attribute
import Shorthand.Proofs.Text

/-!
# Reading attributes again

The attributes that stand in a tag are read like those of the source.

- `unquoteValue_quoted`, `unquoteValue_bare`: what is left of a value without its quotes.
- `BracketPiece.readValue_quoteValue`: a value that is quoted is read back.
- `BracketPiece.scan_pair`, `BracketPiece.scan_row`, `BracketPiece.scan_gap`: what a bracket may
  begin with.
- `scan_expandAttributes`: the pairs are those of the source with their names looked up, and all
  other text is the same.
-/

namespace Shorthand

/-! ## Parts of a text -/

theorem Text.beforeFirst_append_cons {t : Text} {q : Char} (h : q ∉ t) (rest : Text) :
    beforeFirst q (t ++ q :: rest) = t := by
  have ht : ∀ c ∈ t, (c != q) = true := fun c hc => by
    simpa using ne_of_mem_of_not_mem hc h
  rw [beforeFirst, takeWhile_append_of_head (by simp), List.takeWhile_eq_self_iff.2 ht]

theorem Text.afterFirst_append_cons {t : Text} {q : Char} (h : q ∉ t) (rest : Text) :
    afterFirst q (t ++ q :: rest) = rest := by
  have ht : ∀ c ∈ t, (c != q) = true := fun c hc => by
    simpa using ne_of_mem_of_not_mem hc h
  rw [afterFirst, dropWhile_append_of_head (by simp), List.dropWhile_eq_nil_iff.2 ht]
  rfl

/-! ## Quotes -/

theorem unquoteValue_quoted {q : Char} (hq : q = '"' ∨ q = '\'') (value : Text) :
    unquoteValue (q :: (value ++ [q])) = value := by
  have hlast : (value ++ [q]).getLast? = some q := List.getLast?_concat
  have hinside : (value ++ [q]).dropLast = value := List.dropLast_concat
  cases value with
  | nil => rcases hq with rfl | rfl <;> rfl
  | cons c rest =>
    rw [List.cons_append] at hlast hinside ⊢
    rw [unquoteValue, hlast, hinside, if_pos (by simpa using hq)]

/-- A value without quotes is left as it is. -/
theorem unquoteValue_bare {value : Text} (h : ∀ c ∈ value, BracketPiece.isBareChar c = true) :
    unquoteValue value = value := by
  unfold unquoteValue
  split
  · rename_i q c rest
    obtain ⟨⟨hdouble, hsingle⟩, -⟩ : (q ≠ '"' ∧ q ≠ '\'') ∧ isBlank q = false := by
      simpa [BracketPiece.isBareChar] using h q List.mem_cons_self
    rw [if_neg (by simp [hdouble, hsingle])]
  · rfl

/-! ## Names -/

theorem Table.exists_mem_of_get? {t : Table} {key value : Text} (h : t.get? key = some value) :
    ∃ entry ∈ t, entry.2 = value := by
  obtain ⟨entry, hentry, rfl⟩ := Option.map_eq_some_iff.1 h
  exact ⟨entry, List.mem_of_find?_eq_some hentry, rfl⟩

namespace BracketPiece

variable {name after rest value : Text} {c : Char}

/-- The piece with the name that the table gives. -/
def rename (table : Table) : BracketPiece → BracketPiece
  | pair name value => pair ((table.nonempty? name).getD name) value
  | gap text => gap text

/-! ## Values -/

/-- A value that begins with a quote is what stands before the next one. -/
theorem readValue_cons (q : Char) (rest : Text) :
    readValue (q :: rest) =
      if (q = '"' || q = '\'') && rest.contains q then
        (Text.beforeFirst q rest, Text.afterFirst q rest)
      else ((q :: rest).takeWhile isBareChar, (q :: rest).dropWhile isBareChar) := by
  rw [readValue, takeValue]
  split
  · rename_i h
    rw [Bool.and_eq_true] at h
    rw [unquoteValue_quoted (by simpa using h.1)]
  · rw [unquoteValue_bare fun c hc => List.mem_takeWhile_imp hc]

/-- A value holds quotes of one kind at most. -/
theorem not_mem_readValue (t : Text) : '"' ∉ (readValue t).1 ∨ '\'' ∉ (readValue t).1 := by
  cases t with
  | nil => exact .inl List.not_mem_nil
  | cons q rest =>
    rw [readValue_cons]
    split
    · rename_i hq
      have hnot : q ∉ Text.beforeFirst q rest := fun h => by
        simpa using List.mem_takeWhile_imp h
      have hkind : q = '"' ∨ q = '\'' := by
        simp only [Bool.and_eq_true, decide_eq_true_eq, Bool.or_eq_true] at hq
        exact hq.1
      rcases hkind with rfl | rfl
      · exact .inl hnot
      · exact .inr hnot
    · refine .inl fun h => ?_
      exact absurd (List.mem_takeWhile_imp h) (by decide)

/-- A value that is quoted is read back. -/
theorem readValue_quoteValue (h : '"' ∉ value ∨ '\'' ∉ value) (rest : Text) :
    readValue (quoteValue value ++ rest) = (value, rest) := by
  obtain ⟨q, hkind, hnot, hquote⟩ : ∃ q : Char, (q = '"' ∨ q = '\'') ∧ q ∉ value ∧
      quoteValue value = q :: (value ++ [q]) := by
    by_cases hdouble : '"' ∈ value
    · exact ⟨'\'', .inr rfl, h.resolve_left (not_not_intro hdouble), by simp [quoteValue, hdouble]⟩
    · exact ⟨'"', .inl rfl, hdouble, by simp [quoteValue, hdouble]⟩
  have hread : quoteValue value ++ rest = q :: (value ++ q :: rest) := by simp [hquote]
  rw [hread, readValue_cons, Text.beforeFirst_append_cons hnot,
    Text.afterFirst_append_cons hnot, if_pos]
  simpa using hkind

/-! ## Pieces -/

/-- A row of name characters in front of `=` is the name of a pair. -/
theorem scan_pair (hne : name ≠ []) (hname : ∀ c ∈ name, isNameChar c = true) (after : Text) :
    scan (name ++ '=' :: after) = pair name (readValue after).1 :: scan (readValue after).2 := by
  obtain ⟨c, name, rfl⟩ := List.exists_cons_of_ne_nil hne
  have hrow : ∀ d ∈ name, isNameChar d = true := fun d hd => hname d (List.mem_cons_of_mem _ hd)
  have hend : ∀ d ∈ ('=' :: after).head?, isNameChar d = false := by simp [isNameChar]
  have hdrop : (name ++ '=' :: after).dropWhile isNameChar = '=' :: after := by
    rw [Text.dropWhile_append_of_head hend, List.dropWhile_eq_nil_iff.2 hrow, List.nil_append]
  have htake : (name ++ '=' :: after).takeWhile isNameChar = name := by
    rw [Text.takeWhile_append_of_head hend, List.takeWhile_eq_self_iff.2 hrow]
  rw [List.cons_append, scan, if_pos (hname c List.mem_cons_self), htake]
  split
  · rename_i after' h
    obtain rfl : after = after' := by simpa [hdrop] using h
    rfl
  · rename_i hne
    exact absurd hdrop (hne after)

/-- A row of name characters that no `=` follows is no name. -/
theorem scan_row (hne : name ≠ []) (hname : ∀ c ∈ name, isNameChar c = true)
    (hrest : ∀ c ∈ rest.head?, isNameChar c = false ∧ c ≠ '=') :
    scan (name ++ rest) = gap name :: scan rest := by
  obtain ⟨c, name, rfl⟩ := List.exists_cons_of_ne_nil hne
  have hrow : ∀ d ∈ name, isNameChar d = true := fun d hd => hname d (List.mem_cons_of_mem _ hd)
  have hend : ∀ d ∈ rest.head?, isNameChar d = false := fun d hd => (hrest d hd).1
  have hdrop : (name ++ rest).dropWhile isNameChar = rest := by
    rw [Text.dropWhile_append_of_head hend, List.dropWhile_eq_nil_iff.2 hrow, List.nil_append]
  have htake : (name ++ rest).takeWhile isNameChar = name := by
    rw [Text.takeWhile_append_of_head hend, List.takeWhile_eq_self_iff.2 hrow]
  rw [List.cons_append, scan, if_pos (hname c List.mem_cons_self), htake]
  split
  · rename_i after' h
    rw [hdrop] at h
    exact absurd rfl (hrest '=' (by simp [h])).2
  · rw [hdrop]

theorem scan_gap (h : isNameChar c = false) (rest : Text) :
    scan (c :: rest) = gap [c] :: scan rest := by
  rw [scan, if_neg (by simp [h])]

/-! ## Rendering -/

theorem name_of_table {table : Table}
    (h : ∀ entry ∈ table, ∀ c ∈ entry.2, isNameChar c = true)
    (hne : name ≠ []) (hname : ∀ c ∈ name, isNameChar c = true) :
    (table.nonempty? name).getD name ≠ [] ∧
      ∀ c ∈ (table.nonempty? name).getD name, isNameChar c = true := by
  cases hget : table.nonempty? name with
  | none => exact ⟨hne, hname⟩
  | some value =>
    obtain ⟨hfind, hnonempty⟩ := Option.filter_eq_some_iff.1 hget
    obtain ⟨entry, hentry, rfl⟩ := Table.exists_mem_of_get? hfind
    exact ⟨by simpa using hnonempty, h entry hentry⟩

/-- A bracket that begins with no name begins with the same character when it is rendered. -/
theorem head?_render (table : Table) (h : ∀ c ∈ rest.head?, isNameChar c = false) :
    ((scan rest).flatMap (render table)).head? = rest.head? := by
  cases rest with
  | nil => simp [scan]
  | cons c rest =>
    rw [scan_gap (h c rfl)]
    rfl

/-- Rendered pieces are read back, each name as the table gives it. -/
theorem scan_render {table : Table} (h : ∀ entry ∈ table, ∀ c ∈ entry.2, isNameChar c = true)
    (t : Text) : scan ((scan t).flatMap (render table)) = (scan t).map (rename table) := by
  fun_induction scan t with
  | case1 => simp [scan]
  | case2 c rest hc after hafter ih =>
    have hname : ∀ d ∈ c :: rest.takeWhile isNameChar, isNameChar d = true :=
      List.forall_mem_cons.2 ⟨hc, fun d hd => List.mem_takeWhile_imp hd⟩
    obtain ⟨hne, hname'⟩ := name_of_table h (List.cons_ne_nil _ _) hname
    rw [List.flatMap_cons, render, List.append_assoc, List.cons_append, scan_pair hne hname',
      readValue_quoteValue (not_mem_readValue after), ih]
    rfl
  | case3 c rest hc hne ih =>
    have hname : ∀ d ∈ c :: rest.takeWhile isNameChar, isNameChar d = true :=
      List.forall_mem_cons.2 ⟨hc, fun d hd => List.mem_takeWhile_imp hd⟩
    have hend : ∀ d ∈ (rest.dropWhile isNameChar).head?, isNameChar d = false := by
      intro d hd
      have := List.head?_dropWhile_not isNameChar rest
      simp_all
    have hequal : ∀ d ∈ (rest.dropWhile isNameChar).head?, d ≠ '=' := by
      rintro d hd rfl
      obtain ⟨after, hafter⟩ := List.head?_eq_some_iff.1 hd
      exact hne after hafter
    rw [List.flatMap_cons, render, scan_row (List.cons_ne_nil _ _) hname, ih]
    · rfl
    · rw [head?_render table hend]
      exact fun d hd => ⟨hend d hd, hequal d hd⟩
  | case4 c rest hc ih =>
    rw [List.flatMap_cons, render, List.singleton_append, scan_gap (by simpa using hc), ih]
    rfl

end BracketPiece

/-- **Attributes that are rewritten are read as before**: the same pairs with the names that the
table gives, with the same text in front of, between and behind them. Without a table, they are
rewritten as they are. -/
theorem scan_expandAttributes {table : Table}
    (h : ∀ entry ∈ table, ∀ c ∈ entry.2, isBlank c = false ∧ c ≠ '=') (t : Text) :
    BracketPiece.scan (expandAttributes table t) =
        (BracketPiece.scan t).map (BracketPiece.rename table) ∧
      expandAttributes [] (expandAttributes [] t) = expandAttributes [] t := by
  have hname : ∀ entry ∈ table, ∀ c ∈ entry.2, BracketPiece.isNameChar c = true := by
    intro entry hentry c hc
    obtain ⟨hblank, hequal⟩ := h entry hentry c hc
    simp [BracketPiece.isNameChar, hblank, hequal]
  have hrename : BracketPiece.rename [] = id := by
    funext piece
    cases piece <;> rfl
  refine ⟨BracketPiece.scan_render hname t, ?_⟩
  rw [expandAttributes, expandAttributes, BracketPiece.scan_render (by simp), hrename, List.map_id]

/-- A row of `=`, a quote behind a bare value, and one that is never closed -/
theorem scan_expandAttributes_malformed :
    let table : Table := [(['h'], "href".toList)]
    let t := "a==b h='p\"q' c=d'e=f h=\"x".toList
    (∀ entry ∈ table, ∀ c ∈ entry.2, isBlank c = false ∧ c ≠ '=') ∧
      expandAttributes table t = "a=\"=b\" href='p\"q' c=\"d\"'e=\"f\" href=\"\"\"x".toList ∧
      BracketPiece.scan (expandAttributes table t) =
        [.pair ['a'] "=b".toList, .gap [' '], .pair "href".toList "p\"q".toList, .gap [' '],
          .pair ['c'] ['d'], .pair "'e".toList ['f'], .gap [' '], .pair "href".toList [],
          .gap "\"x".toList] := by
  intro table t
  have hvalue : "href".toList.all (fun c => !isBlank c && c != '=') = true := by decide
  have htable : ∀ entry ∈ table, ∀ c ∈ entry.2, isBlank c = false ∧ c ≠ '=' :=
    List.forall_mem_singleton.2 fun c hc => by simpa using List.all_eq_true.1 hvalue c hc
  exact ⟨htable, by decide +kernel, (scan_expandAttributes htable t).1.trans (by decide +kernel)⟩

end Shorthand
