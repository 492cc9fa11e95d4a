import Shorthand.Expansion
import Shorthand.Proofs.Agreement
import Shorthand.Proofs.Scanner

/-!
# What tokens are made of

- `Scanner.written_scan`: the written tokens of a text, one after the other, are the text.
- `Scanner.countP_implied_scan`: the implied tokens are counted by the characters that imply one;
  with the former this is `lexemes_lossless`.
- `Token.IsRead`: the token is read back from its own text. All tokens of a text are
  (`isRead_of_mem_tokenize`); so none of their texts is empty.
- `Expansion.trace_texts`: tokens that are read back may be handed over as texts.
-/

namespace Shorthand

/-! ## The text of tokens -/

theorem Token.text_literal (t : Text) : (literal t).text = t := by
  unfold literal
  split <;> rfl

theorem Token.text_of_operator? {c : Char} {op : Token} (h : operator? c = some op) :
    op.text = [c] := by
  unfold operator? at h
  split at h <;> cases h <;> rfl

/-- The texts of the lexemes that are written, one after the other. -/
def written (ls : List Lexeme) : Text :=
  (ls.filter (!·.implied)).flatMap (·.token.text)

@[simp] theorem written_append (ls ms : List Lexeme) :
    written (ls ++ ms) = written ls ++ written ms := by
  rw [written, List.filter_append, List.flatMap_append]
  rfl

@[simp] theorem written_cons (token : Token) (ls : List Lexeme) :
    written ({ token } :: ls) = token.text ++ written ls :=
  rfl

@[simp] theorem written_nil : written [] = [] := rfl

namespace Scanner

@[simp] theorem written_flush (s : Scanner) : written s.flush = s.pending.reverse := by
  rw [flush]
  split
  · simp_all
  · simp [Token.text_literal]

@[simp] theorem written_impliedSibling (s : Scanner) (c : Char) :
    written (s.impliedSibling c) = [] := by
  rw [impliedSibling]
  split <;> rfl

/-- A character goes into a lexeme or into the pending text. -/
theorem written_step (s : Scanner) (c : Char) :
    written (s.step c).1 ++ (s.step c).2.pending.reverse = s.pending.reverse ++ [c] := by
  obtain ⟨op, hop, -, hs⟩ | ⟨rfl, -, hs⟩ | ⟨rfl, -, hs⟩ | ⟨-, -, hs⟩ := s.step_cases c
  all_goals rw [hs]
  · simp [Token.text_of_operator? hop]
  · simp
  · simp [Token.text_literal]
  · simp

/-- The written tokens of a text, one after the other, are the text. -/
theorem written_scan (s : Scanner) (t : Text) : written (s.scan t) = s.pending.reverse ++ t := by
  induction t generalizing s with
  | nil => rw [scan, written_flush, List.append_nil]
  | cons c t ih =>
    rw [scan, written_append, ih, ← List.append_assoc, written_step, List.append_assoc,
      List.singleton_append]

/-- The lexemes that a character may complete. -/
theorem mem_step {s : Scanner} {c : Char} {l : Lexeme} (h : l ∈ (s.step c).1) :
    l ∈ s.flush ∨ (∃ op, Token.operator? c = some op ∧ l = { token := op }) ∨
      (c = '}' ∧ l = { token := Token.literal (s.pending.reverse ++ ['}']) }) ∨
      l = { token := .sibling, implied := true } := by
  obtain ⟨op, hop, -, hs⟩ | ⟨-, -, hs⟩ | ⟨hc, -, hs⟩ | ⟨-, -, hs⟩ := s.step_cases c
  all_goals rw [hs] at h
  · rcases List.mem_append.1 h with h | h
    · exact .inl h
    · rcases List.mem_cons.1 h with h | h
      · exact .inr (.inl ⟨op, hop, h⟩)
      · exact .inr (.inr (.inr (mem_impliedSibling h)))
  · exact .inl h
  · rcases List.mem_cons.1 h with h | h
    · exact .inr (.inr (.inl ⟨hc, h⟩))
    · exact .inr (.inr (.inr (mem_impliedSibling h)))
  · exact .inr (.inr (.inr (mem_impliedSibling h)))

theorem mem_flush {s : Scanner} {l : Lexeme} (h : l ∈ s.flush) :
    s.pending ≠ [] ∧ l = { token := Token.literal s.pending.reverse } := by
  rw [flush] at h
  split at h
  · cases h
  · exact ⟨by simpa using ‹¬s.pending.isEmpty = true›, List.mem_singleton.1 h⟩

/-- Only a `+` is implied. -/
theorem eq_sibling_of_implied {s : Scanner} {t : Text} {l : Lexeme} (h : l ∈ s.scan t)
    (hl : l.implied = true) : l.token = .sibling := by
  have hflush : ∀ {s : Scanner}, l ∈ s.flush → l.token = .sibling := fun h => by
    obtain ⟨-, rfl⟩ := mem_flush h
    cases hl
  induction t generalizing s with
  | nil => exact hflush h
  | cons c t ih =>
    rcases List.mem_append.1 h with h | h
    · obtain h | ⟨op, -, rfl⟩ | ⟨-, rfl⟩ | rfl := mem_step h
      · exact hflush h
      · cases hl
      · cases hl
      · rfl
    · exact ih h

/-! ## Reading back -/

end Scanner

/-- The token is read back from its text. -/
def Token.IsRead (token : Token) : Prop :=
  ofText? token.text = some token

/-- A literal that starts with no operator is read back. -/
theorem Token.isRead_literal {t : Text} (hne : t ≠ []) (h : ∀ c ∈ t.head?, operator? c = none) :
    (literal t).IsRead := by
  rw [IsRead, text_literal]
  match t with
  | [] => exact absurd rfl hne
  | [c] => simp [ofText?, h c rfl]
  | c :: d :: t => rfl

theorem Token.isRead_operator {c : Char} {op : Token} (h : operator? c = some op) : op.IsRead := by
  rw [IsRead, text_of_operator? h, ofText?, h]
  rfl

namespace Scanner

/-- The pending text starts with no operator, and inside braces or brackets there is one. -/
structure Started (s : Scanner) : Prop where
  head : ∀ c ∈ s.pending.getLast?, Token.operator? c = none
  top : s.pending = [] → s.depth.isTop = true

theorem isRead_flush {s : Scanner} (h : s.Started) {l : Lexeme} (hl : l ∈ s.flush) :
    l.token.IsRead := by
  obtain ⟨hne, rfl⟩ := mem_flush hl
  exact Token.isRead_literal (by simpa using hne) (by simpa using h.head)

theorem head_cons {pending : Text} {c : Char} (hc : pending = [] → Token.operator? c = none)
    (h : ∀ c ∈ pending.getLast?, Token.operator? c = none) :
    ∀ d ∈ (c :: pending).getLast?, Token.operator? d = none := by
  cases pending with
  | nil =>
    intro d hd
    cases hd
    exact hc rfl
  | cons e pending => simpa only [List.getLast?_cons_cons] using h

theorem Started.step {s : Scanner} (h : s.Started) (c : Char) : (s.step c).2.Started := by
  have hempty : ∀ b, Started ⟨{}, [], b⟩ := fun b => ⟨by simp, fun _ => rfl⟩
  obtain ⟨op, -, -, hs⟩ | ⟨-, -, hs⟩ | ⟨-, -, hs⟩ | ⟨hinside, -, hs⟩ := s.step_cases c
  all_goals rw [hs]
  · exact hempty false
  · exact ⟨head_cons (fun _ => rfl) (hempty false).head, fun _ => rfl⟩
  · exact hempty true
  · refine ⟨head_cons (fun hnil => ?_) h.head, by simp⟩
    cases hop : Token.operator? c with
    | none => rfl
    | some op => simpa [h.top hnil] using hinside (.inl (by simp [hop]))

theorem isRead_of_mem_scan {s : Scanner} (h : s.Started) {t : Text} {l : Lexeme}
    (hl : l ∈ s.scan t) : l.token.IsRead := by
  induction t generalizing s with
  | nil => exact isRead_flush h hl
  | cons c t ih =>
    rcases List.mem_append.1 hl with hl | hl
    · obtain hl | ⟨op, hop, rfl⟩ | ⟨-, rfl⟩ | rfl := mem_step hl
      · exact isRead_flush h hl
      · exact Token.isRead_operator hop
      · rw [← List.reverse_cons]
        refine Token.isRead_literal (by simp) ?_
        rw [List.head?_reverse]
        exact head_cons (fun _ => rfl) h.head
      · rfl
    · exact ih (h.step c) hl

end Scanner

theorem isRead_of_mem_tokenize {t : Text} {token : Token} (h : token ∈ tokenize t) :
    token.IsRead := by
  obtain ⟨l, hl, rfl⟩ := List.mem_map.1 h
  exact Scanner.isRead_of_mem_scan ⟨by simp, fun _ => rfl⟩ hl

/-- A token's text is a part of the text, unless the token is an implied `+`. -/
theorem sublist_of_mem_tokenize {t : Text} {token : Token} (h : token ∈ tokenize t) :
    token = .sibling ∨ token.text.Sublist t := by
  obtain ⟨l, hl, rfl⟩ := List.mem_map.1 h
  cases himplied : l.implied with
  | true => exact .inl (Scanner.eq_sibling_of_implied hl himplied)
  | false =>
    refine .inr ?_
    have hmem : l ∈ (lexemes t).filter (!·.implied) := List.mem_filter.2 ⟨hl, by simp [himplied]⟩
    have hsub := List.sublist_flatten_of_mem (List.mem_map_of_mem (f := fun l => l.token.text) hmem)
    rw [← List.flatMap_def] at hsub
    have hwritten : written (lexemes t) = t := Scanner.written_scan {} t
    exact hwritten ▸ hsub

/-! ## Implied siblings -/

/-- A `+` is implied right after the character at index `i`: a closing brace stands before it, it is
no `*`, and it leaves the scanner at the top level. -/
def impliesSibling (t : Text) (i : Nat) : Bool :=
  1 ≤ i && t[i - 1]? == some '}' && t[i]? != some '*' &&
    ((t.take (i + 1)).foldl Depth.after {}).isTop

namespace Scanner

/-- A `+` is implied right after the character at index `i` of a text that is read from here. -/
def impliesSibling (s : Scanner) (t : Text) (i : Nat) : Bool :=
  (if i = 0 then s.afterBrace else t[i - 1]? == some '}') && t[i]? != some '*' &&
    ((t.take (i + 1)).foldl Depth.after s.depth).isTop

theorem countP_implied_flush (s : Scanner) : s.flush.countP (·.implied) = 0 := by
  rw [flush]
  split <;> rfl

theorem countP_implied_impliedSibling (s : Scanner) (c : Char) :
    (s.impliedSibling c).countP (·.implied) =
      if s.afterBrace && (s.depth.after c).isTop && c != '*' then 1 else 0 := by
  rw [impliedSibling]
  split <;> rfl

/-- At most one `+` is implied after a character. -/
theorem countP_implied_step (s : Scanner) (c : Char) :
    (s.step c).1.countP (·.implied) =
      if s.afterBrace && (s.depth.after c).isTop && c != '*' then 1 else 0 := by
  rw [← countP_implied_impliedSibling]
  obtain ⟨op, -, -, hs⟩ | ⟨rfl, -, hs⟩ | ⟨-, -, hs⟩ | ⟨-, -, hs⟩ := s.step_cases c
  all_goals rw [hs]
  · simp [countP_implied_flush]
  · simp [countP_implied_flush, impliedSibling]
  · simp

/-- The character after the first is at its place in what the first leaves to read. -/
theorem impliesSibling_cons_succ (s : Scanner) (c : Char) (t : Text) (i : Nat) :
    s.impliesSibling (c :: t) (i + 1) = (s.step c).2.impliesSibling t i := by
  rw [impliesSibling, impliesSibling, depth_step, afterBrace_step]
  cases i <;> simp

theorem impliesSibling_cons_zero (s : Scanner) (c : Char) (t : Text) :
    s.impliesSibling (c :: t) 0 = (s.afterBrace && (s.depth.after c).isTop && c != '*') := by
  simp [impliesSibling, Bool.and_right_comm, bne]

/-- The `+` that are implied in the rest of a text are those after the characters that imply one. -/
theorem countP_implied_scan (s : Scanner) (t : Text) :
    (s.scan t).countP (·.implied) = (List.range t.length).countP (s.impliesSibling t) := by
  induction t generalizing s with
  | nil => exact countP_implied_flush s
  | cons c t ih =>
    have hrest : (s.impliesSibling (c :: t)) ∘ Nat.succ = (s.step c).2.impliesSibling t :=
      funext fun i => impliesSibling_cons_succ s c t i
    rw [scan, List.countP_append, countP_implied_step, ih, List.length_cons,
      List.range_succ_eq_map, List.countP_cons, List.countP_map, hrest,
      impliesSibling_cons_zero, Nat.add_comm]

end Scanner

/-- Tokenizing loses, duplicates and reorders nothing: the tokens are the written ones, whose texts
are the text one after the other, and implied `+` in between, one for each character that implies
one. -/
theorem lexemes_lossless (t : Text) :
    tokenize t = (lexemes t).map Lexeme.token ∧
    (∀ l ∈ lexemes t, l.implied = true → l.token = .sibling) ∧
    (((lexemes t).filter (!·.implied)).map (·.token.text)).flatten = t ∧
    (lexemes t).countP (·.implied) = (List.range t.length).countP (impliesSibling t) := by
  have hcount : Scanner.impliesSibling {} t = impliesSibling t := by
    funext i
    rw [Scanner.impliesSibling, impliesSibling]
    cases i <;> simp
  refine ⟨rfl, fun l => Scanner.eq_sibling_of_implied, ?_, ?_⟩
  · rw [← List.flatMap_def]
    exact Scanner.written_scan {} t
  · rw [lexemes, Scanner.countP_implied_scan, hcount]

/-! ## Tokens handed over as texts -/

namespace Expansion

/-- Tokens that are read back may be handed over as texts. -/
theorem trace_texts (attributes : Table) (resolver : Resolver) (e : Expansion)
    {tokens : List Token} (h : ∀ token ∈ tokens, token.IsRead) :
    (trace attributes resolver e (tokens.map Token.text)).2 =
      finish <$> run attributes resolver e tokens := by
  induction tokens generalizing e with
  | nil => rfl
  | cons token tokens ih =>
    have htoken : Token.ofText? token.text = some token := h token List.mem_cons_self
    rw [List.map_cons, trace, htoken, run, List.foldlM_cons]
    simp only
    cases step attributes resolver e token with
    | error fault => rfl
    | ok e' => exact ih e' fun other hother => h other (List.mem_cons_of_mem _ hother)

end Expansion

end Shorthand
