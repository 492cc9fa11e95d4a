import Shorthand.Proofs.Lexemes
import Shorthand.Proofs.Source

/-!
# Literals

What the scanner hands over as a literal begins and ends at the top level.

- `Scanner.Pends`: what is pending is the start of a literal. Every character keeps this up.
- `IsLiteral`: where operators, `*` and `}` stand in a literal. Every token but an operator is one
  (`tokenize_shape`).
- `lexemes_of_isLiteral`: in turn, a literal is one token.
- `tokenize_append_operator`: an operator at the top level parts the tokens of a text.
-/

namespace Shorthand

theorem Token.isOperator_of_operator? {c : Char} {op : Token} (h : operator? c = some op) :
    op.isOperator = true := by
  unfold operator? at h
  split at h <;> cases h <;> rfl

/-! ## The shape of a literal -/

/-- What a character of a literal may be, between the characters before it and those behind. -/
structure Placed (before : Text) (c : Char) (behind : Text) : Prop where
  /-- An operator stands inside braces or brackets. -/
  operator : (Token.operator? c).isSome = true → (depthAfter before).isTop = false
  /-- At the top level, `*` is the first character. -/
  times : c = '*' → (depthAfter before).isTop = true → before = []
  /-- A closing brace that leads to the top level is the last character. -/
  brace : c = '}' → (depthAfter (before ++ [c])).isTop = true → behind = []

/-- The text is a literal: each of its characters is in its place. -/
def IsLiteral (t : Text) : Prop :=
  ∀ before c behind, t = before ++ c :: behind → Placed before c behind

/-- A character of a text with one more at its end is that one, or one of the text. -/
theorem concat_eq_append_cons {α : Type} {t before behind : List α} {c d : α}
    (h : t ++ [c] = before ++ d :: behind) :
    (before = t ∧ d = c ∧ behind = []) ∨ ∃ rest, behind = rest ++ [c] ∧ t = before ++ d :: rest := by
  rcases behind.eq_nil_or_concat' with rfl | ⟨rest, e, rfl⟩
  · obtain ⟨rfl, hd⟩ := List.append_inj' h rfl
    exact .inl ⟨rfl, (List.cons.inj hd).1.symm, rfl⟩
  · rw [← List.cons_append, ← List.append_assoc] at h
    obtain ⟨rfl, hc⟩ := List.append_inj' h rfl
    obtain rfl := (List.cons.inj hc).1
    exact .inr ⟨rest, rfl, rfl⟩

namespace Scanner

/-- The pending text may be the start of a literal however it goes on, and the scanner is as deep
as it leads. -/
structure Pends (s : Scanner) : Prop where
  depth : s.depth = depthAfter s.pending.reverse
  placed : ∀ before c rest, s.pending.reverse = before ++ c :: rest →
    ∀ behind, Placed before c behind

variable {s : Scanner} {l : Lexeme}

theorem Pends.empty (h : s.pending = []) (hd : s.depth = {}) : s.Pends := by
  refine ⟨by rw [hd, h]; rfl, fun before c rest hp => ?_⟩
  simp [h] at hp

theorem Pends.isLiteral (h : s.Pends) : IsLiteral s.pending.reverse :=
  fun before c behind hp => h.placed before c behind hp behind

/-- One more pending character. -/
theorem Pends.push (h : s.Pends) {c : Char} {d : Depth} {b : Bool} (hd : d = s.depth.after c)
    (hc : ∀ behind, Placed s.pending.reverse c behind) : Pends ⟨d, c :: s.pending, b⟩ := by
  refine ⟨?_, fun before e rest hp behind => ?_⟩
  · rw [List.reverse_cons, depthAfter_concat, ← h.depth, hd]
  · rw [List.reverse_cons] at hp
    obtain ⟨rfl, rfl, -⟩ | ⟨rest', -, hp⟩ := concat_eq_append_cons hp
    · exact hc behind
    · exact h.placed before e rest' hp behind

/-- With the closing brace that leads to the top level, the pending text is a literal. -/
theorem Pends.isLiteral_brace (h : s.Pends) : IsLiteral (s.pending.reverse ++ ['}']) := by
  intro before c behind hp
  obtain ⟨rfl, rfl, rfl⟩ | ⟨rest, -, hp⟩ := concat_eq_append_cons hp
  · exact ⟨fun hop => absurd hop (by decide), fun hstar => absurd hstar (by decide), fun _ _ => rfl⟩
  · exact h.placed before c rest hp behind

/-- **What one character preserves.** -/
theorem Pends.step (h : s.Pends) (c : Char) : (s.step c).2.Pends := by
  have hempty : Pends {} := .empty rfl rfl
  obtain ⟨op, -, -, hs⟩ | ⟨-, -, hs⟩ | ⟨-, -, hs⟩ | ⟨hinside, hbrace, hs⟩ := s.step_cases c
  · exact hs ▸ hempty
  · rw [hs]
    exact hempty.push rfl fun behind =>
      ⟨fun hop => absurd hop (by decide), fun _ _ => rfl, fun hb => absurd hb (by decide)⟩
  · exact hs ▸ .empty rfl rfl
  · rw [hs]
    refine h.push rfl fun behind => ?_
    rw [h.depth] at hinside hbrace
    refine ⟨fun hop => hinside (.inl hop), fun hstar htop => ?_, fun hb htop => ?_⟩
    · rw [hinside (.inr hstar)] at htop
      cases htop
    · rw [depthAfter_concat, hbrace hb] at htop
      cases htop

theorem Pends.mem_flush (h : s.Pends) (hl : l ∈ s.flush) :
    IsLiteral l.token.text ∧ depthAfter l.token.text = s.depth := by
  obtain ⟨-, rfl⟩ := Scanner.mem_flush hl
  rw [Token.text_literal]
  exact ⟨h.isLiteral, h.depth.symm⟩

/-- A lexeme that a character completes is an operator, or a literal that leads back to the top
level. -/
theorem Pends.mem_step (h : s.Pends) {c : Char} (hl : l ∈ (s.step c).1) :
    l.token.isOperator = true ∨
      IsLiteral l.token.text ∧ (depthAfter l.token.text).isTop = true := by
  have himplied : l ∈ s.impliedSibling c → l.token.isOperator = true := fun hl => by
    rw [mem_impliedSibling hl]
    rfl
  have hflush : s.depth.isTop = true → l ∈ s.flush →
      IsLiteral l.token.text ∧ (depthAfter l.token.text).isTop = true := fun htop hl => by
    obtain ⟨hliteral, hd⟩ := h.mem_flush hl
    exact ⟨hliteral, hd ▸ htop⟩
  obtain ⟨op, hop, htop, hs⟩ | ⟨-, htop, hs⟩ | ⟨rfl, htop, hs⟩ | ⟨-, -, hs⟩ := s.step_cases c
  all_goals rw [hs] at hl
  · rcases List.mem_append.1 hl with hl | hl
    · exact .inr (hflush htop hl)
    · rcases List.mem_cons.1 hl with rfl | hl
      · exact .inl (Token.isOperator_of_operator? hop)
      · exact .inl (himplied hl)
  · exact .inr (hflush htop hl)
  · rcases List.mem_cons.1 hl with rfl | hl
    · rw [Token.text_literal, depthAfter_concat, ← h.depth]
      exact .inr ⟨h.isLiteral_brace, htop⟩
    · exact .inl (himplied hl)
  · exact .inl (himplied hl)

/-- **What a text preserves.** The lexemes that are complete after it have the shape that one
character gives them. -/
theorem Pends.run (h : s.Pends) (t : Text) :
    (s.after t).Pends ∧ ∀ l ∈ s.completed t, l.token.isOperator = true ∨
      IsLiteral l.token.text ∧ (depthAfter l.token.text).isTop = true := by
  induction t generalizing s with
  | nil => exact ⟨h, fun l hl => by cases hl⟩
  | cons c t ih =>
    obtain ⟨hafter, hcompleted⟩ := ih (h.step c)
    refine ⟨hafter, fun l hl => ?_⟩
    rcases List.mem_append.1 hl with hl | hl
    · exact h.mem_step hl
    · exact hcompleted l hl

theorem length_flush_le (s : Scanner) : s.flush.length ≤ 1 := by
  rw [flush]
  split <;> simp

end Scanner

theorem Token.IsRead.text_ne_nil {token : Token} (h : token.IsRead) : token.text ≠ [] := by
  intro hnil
  rw [IsRead, hnil] at h
  cases h

/-- What stands before the last member of a list stands in its front part, if the rest has one
member at most. -/
theorem mem_of_mem_dropLast_append {α : Type} {xs ys : List α} {x : α} (hys : ys.length ≤ 1)
    (h : x ∈ (xs ++ ys).dropLast) : x ∈ xs := by
  match ys with
  | [] => exact List.dropLast_subset xs (by simpa using h)
  | [y] => simpa using h

/-- **Every token is an operator or a literal**, and is not empty. Every literal but the last token
of a text leads back to the top level. -/
theorem tokenize_shape (t : Text) :
    (∀ token ∈ tokenize t,
      token.text ≠ [] ∧ (token.isOperator = true ∨ IsLiteral token.text)) ∧
    ∀ token ∈ (tokenize t).dropLast,
      token.isOperator = true ∨ (depthAfter token.text).isTop = true := by
  obtain ⟨hpends, hcompleted⟩ := Scanner.Pends.run (s := {}) (.empty rfl rfl) t
  refine ⟨fun token htoken => ?_, fun token htoken => ?_⟩
  · refine ⟨(isRead_of_mem_tokenize htoken).text_ne_nil, ?_⟩
    obtain ⟨l, hl, rfl⟩ := List.mem_map.1 htoken
    rw [lexemes, Scanner.scan_eq] at hl
    rcases List.mem_append.1 hl with hl | hl
    · exact (hcompleted l hl).imp_right And.left
    · exact .inr (hpends.mem_flush hl).1
  · -- only what is pending at the end may stay inside braces or brackets
    rw [tokenize, lexemes, Scanner.scan_eq, List.map_append] at htoken
    obtain ⟨l, hl, rfl⟩ := List.mem_map.1 (mem_of_mem_dropLast_append
      (by simpa using Scanner.length_flush_le _) htoken)
    exact (hcompleted l hl).imp_right And.right

/-! ## A literal as a text -/

namespace Scanner

theorem filter_impliedSibling (s : Scanner) (c : Char) :
    (s.impliedSibling c).filter (!·.implied) = [] := by
  rw [impliedSibling]
  split <;> rfl

/-- Before a literal ends, all of it is pending, and no token is complete but implied ones. -/
theorem pending_of_isLiteral {t rest : Text} (hrest : rest ≠ []) (h : IsLiteral (t ++ rest)) :
    (after {} t).pending = t.reverse ∧ (completed {} t).filter (!·.implied) = [] := by
  induction t using List.reverseRecOn generalizing rest with
  | nil => exact ⟨rfl, rfl⟩
  | append_singleton t c ih =>
    obtain ⟨hpending, hcompleted⟩ := ih (List.cons_ne_nil c rest) (by simpa using h)
    have hplaced : Placed t c rest := h t c rest (by simp)
    have hdepth : (after {} t).depth = depthAfter t := depth_after t
    rw [after_concat, completed_concat, List.filter_append, hcompleted, List.nil_append]
    obtain ⟨op, hop, htop, -⟩ | ⟨rfl, htop, hs⟩ | ⟨rfl, htop, -⟩ | ⟨-, -, hs⟩ :=
      (after {} t).step_cases c
    · have hinside := hplaced.operator (by rw [hop]; rfl)
      rw [← hdepth, htop] at hinside
      cases hinside
    · -- a `*` at the top level is the first character
      obtain rfl := hplaced.times rfl (hdepth ▸ htop)
      exact ⟨by rw [hs]; rfl, by rw [hs]; rfl⟩
    · rw [hdepth, ← depthAfter_concat] at htop
      exact absurd (hplaced.brace rfl htop) hrest
    · rw [hs, filter_impliedSibling]
      exact ⟨by rw [hpending, List.reverse_concat], rfl⟩

end Scanner

/-- **A literal is one token**, with implied ones at most beside it. -/
theorem lexemes_of_isLiteral {t : Text} (hne : t ≠ []) (h : IsLiteral t) :
    (lexemes t).filter (!·.implied) = [{ token := Token.literal t }] := by
  obtain ⟨t, c, rfl⟩ := t.eq_nil_or_concat'.resolve_left hne
  obtain ⟨hpending, hcompleted⟩ := Scanner.pending_of_isLiteral (List.cons_ne_nil c []) h
  have hplaced : Placed t c [] := h t c [] rfl
  have hdepth : (Scanner.after {} t).depth = depthAfter t := Scanner.depth_after t
  rw [lexemes, Scanner.scan_eq, Scanner.completed_concat, Scanner.after_concat,
    List.filter_append, List.filter_append, hcompleted, List.nil_append]
  obtain ⟨op, hop, htop, -⟩ | ⟨rfl, htop, hs⟩ | ⟨rfl, -, hs⟩ | ⟨-, -, hs⟩ :=
    (Scanner.after {} t).step_cases c
  · have hinside := hplaced.operator (by rw [hop]; rfl)
    rw [← hdepth, htop] at hinside
    cases hinside
  · obtain rfl := hplaced.times rfl (hdepth ▸ htop)
    rw [hs]
    rfl
  · rw [hs, List.filter_cons_of_pos rfl, Scanner.filter_impliedSibling, hpending,
      List.reverse_reverse]
    rfl
  · rw [hs, Scanner.filter_impliedSibling, hpending]
    simp [Scanner.flush]

/-! ## Texts with an operator -/

theorem Scanner.tokens_append (s : Scanner) (t u : Text) :
    s.tokens (t ++ u) = (s.completed t).map Lexeme.token ++ (s.after t).tokens u := by
  rw [tokens, scan_append, List.map_append]
  rfl

/-- **An operator at the top level parts the tokens of a text.** Of what stands before it, only a
closing brace at the end is seen behind it, as a `+`. -/
theorem tokenize_append_operator {a : Text} (ha : (depthAfter a).isTop = true) {o : Char}
    {op : Token} (ho : Token.operator? o = some op) (b : Text) :
    tokenize (a ++ o :: b) =
      tokenize a ++ [op] ++ (if a.getLast? = some '}' then [.sibling] else []) ++ tokenize b := by
  obtain ⟨pending, hafter⟩ :
      ∃ pending, Scanner.after {} a = ⟨{}, pending, a.getLast? == some '}'⟩ := by
    refine ⟨(Scanner.after {} a).pending, (Scanner.after_eq a).trans ?_⟩
    rw [Depth.eq_of_isTop ha]
  have hbefore : tokenize a =
      (Scanner.completed {} a).map Lexeme.token ++ Scanner.flushed pending := by
    have h := Scanner.tokens_append {} a []
    rwa [hafter, Scanner.tokens_nil, List.append_nil] at h
  have hbehind := Scanner.tokens_operator (Token.isOperator_of_operator? ho) pending
    (a.getLast? == some '}') b
  rw [Token.text_of_operator? ho, List.singleton_append] at hbehind
  have hwhole := Scanner.tokens_append {} a (o :: b)
  rw [hafter, hbehind, ← List.append_assoc, ← hbefore] at hwhole
  refine hwhole.trans ?_
  simp [tokenize, lexemes, Scanner.tokens]

/-- `p{a}}>b[+`, where the second closing brace closes nothing and the bracket is never closed -/
theorem tokenize_append_operator_stray_brace :
    let a := "p{a}".toList ++ ['}']
    (depthAfter a).isTop = true ∧ Token.operator? '>' = some .nest ∧
      tokenize (a ++ '>' :: "b[+".toList) =
        [.node "p{a}".toList, .node ['}'], .sibling, .nest, .sibling, .node "b[+".toList] := by
  intro a
  have ha : (depthAfter a).isTop = true := by decide
  exact ⟨ha, rfl, (tokenize_append_operator ha rfl "b[+".toList).trans (by decide)⟩

end Shorthand
