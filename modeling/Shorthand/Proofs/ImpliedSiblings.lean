import Shorthand.Proofs.Literals

/-!
# Where a `+` is implied

The tokens of a text are read character by character, and a `+` may be implied after each.

- `readAt`: the lexemes that reading one character completes; together they are those of the text
  (`lexemes_eq_flatMap_readAt`).
- `addsSibling_iff`: a `+` is implied after the characters of the text that imply one.
- `impliedSiblings_follow_literals`: the closing brace is the end of a literal, unless the next
  character closes the braces or brackets that it stands in. Only then does a `}` inside of these
  imply a `+`.
-/

namespace Shorthand

/-- The lexemes that reading the character at index `i` completes. -/
def Scanner.readAt (s : Scanner) (t : Text) (i : Nat) : List Lexeme :=
  match t[i]? with
  | some c => ((s.after (t.take i)).step c).1
  | none => []

/-- The lexemes that reading the character at index `i` of a text completes. -/
def readAt (t : Text) (i : Nat) : List Lexeme :=
  Scanner.readAt {} t i

theorem Scanner.completed_eq_flatMap (s : Scanner) (t : Text) :
    s.completed t = (List.range t.length).flatMap (s.readAt t) := by
  induction t generalizing s with
  | nil => rfl
  | cons c t ih =>
    rw [completed, ih, List.length_cons, List.range_succ_eq_map, List.flatMap_cons, List.flatMap_map]
    rfl

/-- The lexemes of a text are those that its characters complete, and the pending literal. -/
theorem lexemes_eq_flatMap_readAt (t : Text) :
    lexemes t = (List.range t.length).flatMap (readAt t) ++ (Scanner.after {} t).flush := by
  rw [lexemes, Scanner.scan_eq, Scanner.completed_eq_flatMap]
  rfl

/-- A `+` is implied when the character at index `i` is read. -/
def addsSibling (t : Text) (i : Nat) : Bool :=
  (readAt t i).any (·.implied)

theorem Scanner.any_implied_step (s : Scanner) (c : Char) :
    (s.step c).1.any (·.implied) = (s.afterBrace && (s.depth.after c).isTop && c != '*') := by
  rw [Bool.eq_iff_iff, List.any_eq_true, ← List.countP_pos_iff, countP_implied_step]
  split <;> simp [*]

theorem depthAfter_take_succ {t : Text} {i : Nat} {c : Char} (h : t[i]? = some c) :
    depthAfter (t.take (i + 1)) = (depthAfter (t.take i)).after c := by
  rw [List.take_add_one, h, Option.toList_some, depthAfter_concat]

theorem impliesSibling_zero (t : Text) : impliesSibling t 0 = false := by
  simp [impliesSibling]

theorem impliesSibling_succ (t : Text) (j : Nat) : impliesSibling t (j + 1) =
    (t[j]? == some '}' && t[j + 1]? != some '*' && (depthAfter (t.take (j + 2))).isTop) := by
  simp [impliesSibling, depthAfter]

/-- A `+` is implied after the characters of the text that imply one. -/
theorem addsSibling_iff {t : Text} {i : Nat} :
    addsSibling t i = true ↔ i < t.length ∧ impliesSibling t i = true := by
  rw [addsSibling, readAt, Scanner.readAt]
  cases hc : t[i]? with
  | none => simp [Nat.not_lt.2 (List.getElem?_eq_none_iff.1 hc)]
  | some c =>
    obtain ⟨hlt, -⟩ := List.getElem?_eq_some_iff.1 hc
    simp only [Scanner.any_implied_step, Scanner.depth_after, Scanner.afterBrace_after,
      ← depthAfter_take_succ hc, hlt, true_and]
    cases i with
    | zero => simp [impliesSibling_zero]
    | succ j =>
      have hlast : (t.take (j + 1)).getLast? = t[j]? := by
        rw [List.getLast?_take, if_neg (Nat.succ_ne_zero j), Nat.add_sub_cancel,
          List.getElem?_eq_getElem (by omega), Option.some_or]
      rw [hlast, impliesSibling_succ, hc, Bool.and_right_comm]
      simp [bne]

/-- A closing brace at index `j` ends a literal: it leads to the top level, and reading it completes
a literal of which it is the last character. -/
def EndsLiteral (t : Text) (j : Nat) : Prop :=
  (depthAfter (t.take (j + 1))).isTop = true ∧
    ∃ u, ({ token := .literal (u ++ ['}']) } : Lexeme) ∈ readAt t j

/-- The character at index `i` closes the braces or brackets that are open before it. -/
def closesRegion (t : Text) (i : Nat) : Bool :=
  !(depthAfter (t.take i)).isTop && (depthAfter (t.take (i + 1))).isTop

/-- A closing brace that leads to the top level ends a literal. -/
theorem endsLiteral_iff {t : Text} {j : Nat} (h : t[j]? = some '}') :
    EndsLiteral t j ↔ (depthAfter (t.take (j + 1))).isTop = true := by
  refine ⟨And.left, fun htop => ⟨htop, ?_⟩⟩
  rw [depthAfter_take_succ h, ← Scanner.depth_after] at htop
  have hread : readAt t j = ((Scanner.after {} (t.take j)).step '}').1 := by
    rw [readAt, Scanner.readAt, h]
  rw [hread]
  obtain ⟨op, hop, -⟩ | ⟨hstar, -⟩ | ⟨-, -, hs⟩ | ⟨-, hbrace, -⟩ :=
    (Scanner.after {} (t.take j)).step_cases '}'
  · cases hop
  · exact absurd hstar (by decide)
  · rw [hs]
    exact ⟨_, List.mem_cons_self⟩
  · rw [hbrace rfl] at htop
    cases htop

/-- What closes braces or brackets is a character other than `*`. -/
theorem exists_of_closesRegion {t : Text} {i : Nat} (h : closesRegion t i = true) :
    ∃ c, t[i]? = some c ∧ c ≠ '*' := by
  simp only [closesRegion, Bool.and_eq_true, Bool.not_eq_true'] at h
  obtain ⟨hopen, htop⟩ := h
  cases hc : t[i]? with
  | none =>
    rw [List.take_add_one, hc, Option.toList_none, List.append_nil, hopen] at htop
    cases htop
  | some c =>
    refine ⟨c, rfl, ?_⟩
    rintro rfl
    rw [depthAfter_take_succ hc, Depth.after_star, hopen] at htop
    cases htop

/-- **The closing brace that implies a `+` is the end of a literal**, which is complete then, unless
the next character closes the braces or brackets that it stands in. A closing brace that stays
inside these implies a `+` exactly when the next character closes them. -/
theorem impliedSiblings_follow_literals (t : Text) :
    lexemes t = (List.range t.length).flatMap (readAt t) ++ (Scanner.after {} t).flush ∧
    (∀ i, addsSibling t i = true →
      ∃ j, i = j + 1 ∧ t[j]? = some '}' ∧ (EndsLiteral t j ↔ closesRegion t i = false)) ∧
    ∀ j, t[j]? = some '}' → (depthAfter (t.take (j + 1))).isTop = false →
      addsSibling t (j + 1) = closesRegion t (j + 1) := by
  refine ⟨lexemes_eq_flatMap_readAt t, fun i h => ?_, fun j hj hopen => ?_⟩
  · obtain ⟨-, h⟩ := addsSibling_iff.1 h
    cases i with
    | zero => simp [impliesSibling_zero] at h
    | succ j =>
      simp only [impliesSibling_succ, Bool.and_eq_true, beq_iff_eq] at h
      obtain ⟨⟨hbrace, -⟩, htop⟩ := h
      refine ⟨j, rfl, hbrace, ?_⟩
      rw [endsLiteral_iff hbrace, closesRegion, htop, Bool.and_true, Bool.not_eq_false']
  · rw [Bool.eq_iff_iff, addsSibling_iff, impliesSibling_succ, closesRegion, hopen, hj]
    refine ⟨fun ⟨_, h⟩ => ?_, fun h => ?_⟩
    · simpa using (Bool.and_eq_true_iff.1 h).2
    · obtain ⟨c, hc, hstar⟩ := exists_of_closesRegion (i := j + 1) (by rwa [closesRegion, hopen])
      obtain ⟨hlt, -⟩ := List.getElem?_eq_some_iff.1 hc
      exact ⟨hlt, by simpa [hc, hstar] using h⟩

/-- `p{a}b` -/
theorem impliedSiblings_follow_literals_text :
    addsSibling "p{a}b".toList 4 = true ∧ EndsLiteral "p{a}b".toList 3 := by
  have hadds : addsSibling "p{a}b".toList 4 = true := by decide
  obtain ⟨j, hj, -, hends⟩ := (impliedSiblings_follow_literals "p{a}b".toList).2.1 4 hadds
  obtain rfl : j = 3 := by omega
  exact ⟨hadds, hends.2 (by decide)⟩

/-- `[}]` and `{{}}`: the closing brace inside implies a `+`, before the literal that it is a part of
and behind it -/
theorem impliedSiblings_inside_region :
    (addsSibling ['[', '}', ']'] 2 = true ∧ (depthAfter ['[', '}']).isTop = false ∧
      tokenize ['[', '}', ']'] = [.sibling, .node ['[', '}', ']']]) ∧
    addsSibling "{{}}".toList 3 = true ∧ (depthAfter ['{', '{', '}']).isTop = false ∧
      tokenize "{{}}".toList = [.node "{{}}".toList, .sibling] := by
  decide

end Shorthand
