import Shorthand.Compiler
import Shorthand.Proofs.Scanner
import Shorthand.Proofs.Steps

/-!
# Tokens that are written

A list of tokens is written as a text, and the tokens of that text are the list.

- `source`: the text of a list of tokens.
- `isSource`: what the list has to be for its text to read back as the list.
- `tokenize_source`: it does so.
- `tokenize_filled`: the same with a text in braces after one of the nodes. This puts a `+` after the
  operator that follows the node.
- `stripComments_eq_self`: nothing is stripped from a text exactly when no comment begins in it.
- `Compiler.output_source`: the compiler's output for a text of tokens.
-/

namespace Shorthand

/-! ## Writing tokens -/

/-- The text of a list of tokens. -/
def source (tokens : List Token) : Text :=
  tokens.flatMap Token.text

/-- A text without braces that closes its brackets and holds operators and `*` inside of these only,
read from the depth `d` on. -/
def isLiteralFrom (d : Depth) : Text → Bool
  | [] => d.isTop
  | c :: rest =>
    c != '{' && c != '}' && (!(d.after c).isTop || (Token.operator? c).isNone && c != '*') &&
      isLiteralFrom (d.after c) rest

/-- The token reads back from its text: a node is a literal without braces, and a repeat marker
consists of digits. -/
def Token.isWritten : Token → Bool
  | node text => !text.isEmpty && isLiteralFrom {} text
  | times marker => marker.all isDigit
  | _ => true

/-- The tokens read back from their text: each does, and no node directly follows a node or a repeat
marker. The flag tells whether a node may come first. -/
def isSource : Bool → List Token → Bool
  | _, [] => true
  | free, token :: rest =>
    token.isWritten && (free || !token.isNode) && isSource token.isOperator rest

/-- The tokens with a `+` after the first, if that is an operator. -/
def withSibling : List Token → List Token
  | [] => []
  | token :: rest => if token.isOperator then token :: .sibling :: rest else token :: rest

@[simp] theorem source_nil : source [] = [] := rfl

@[simp] theorem source_cons (token : Token) (tokens : List Token) :
    source (token :: tokens) = token.text ++ source tokens := rfl

theorem source_append (s t : List Token) : source (s ++ t) = source s ++ source t :=
  List.flatMap_append

/-! ## Characters without a meaning of their own -/

/-- A character that is no operator, no brace, no bracket and no `*`. -/
def isPlainChar (c : Char) : Bool :=
  !"+>^(){}[]*".toList.contains c

theorem Depth.after_of_plain {c : Char} (h : isPlainChar c = true) (d : Depth) : d.after c = d := by
  unfold Depth.after
  split
  all_goals first | rfl | exact absurd h (by decide)

theorem operator?_of_plain {c : Char} (h : isPlainChar c = true) : Token.operator? c = none := by
  unfold Token.operator?
  split
  all_goals first | rfl | exact absurd h (by decide)

theorem isLiteralFrom_of_plain {t : Text} (h : ∀ c ∈ t, isPlainChar c = true) :
    isLiteralFrom {} t = true := by
  induction t with
  | nil => rfl
  | cons c t ih =>
    have hc := h c List.mem_cons_self
    have hne : ∀ d, isPlainChar d = false → c ≠ d := by
      rintro d hd rfl
      rw [hd] at hc
      cases hc
    rw [isLiteralFrom, Depth.after_of_plain hc, operator?_of_plain hc,
      ih fun d hd => h d (List.mem_cons_of_mem _ hd)]
    simp [hne '{' (by decide), hne '}' (by decide), hne '*' (by decide)]

theorem isPlainChar_of_isDigit {c : Char} (h : isDigit c = true) : isPlainChar c = true := by
  rw [isPlainChar, Bool.not_eq_true', Bool.eq_false_iff]
  intro hc
  have hall : "+>^(){}[]*".toList.all (!isDigit ·) = true := by decide
  have := List.all_eq_true.1 hall c (List.contains_iff_mem.1 hc)
  simp [h] at this

theorem Token.literal_of_head {t : Text} (h : t.head? ≠ some '*') : literal t = .node t := by
  unfold literal
  split
  · simp at h
  · rfl

/-- A written node is not empty and does not start like a repeat marker. -/
theorem Token.head_of_isWritten {text : Text} (h : (Token.node text).isWritten = true) :
    text ≠ [] ∧ text.head? ≠ some '*' := by
  cases text with
  | nil => cases h
  | cons c text =>
    refine ⟨List.cons_ne_nil _ _, fun hc => ?_⟩
    obtain rfl : c = '*' := by simpa using hc
    simp [isWritten, isLiteralFrom, Depth.after, Depth.isTop] at h

/-! ## Scanning -/

namespace Scanner

/-- The tokens of the rest of a text. -/
def tokens (s : Scanner) (t : Text) : List Token :=
  (s.scan t).map Lexeme.token

/-- The token of the pending text, if there is one. -/
def flushed (pending : Text) : List Token :=
  if pending.isEmpty then [] else [Token.literal pending.reverse]

theorem tokens_nil (d : Depth) (pending : Text) (b : Bool) :
    tokens ⟨d, pending, b⟩ [] = flushed pending := by
  cases pending <;> rfl

/-- Characters of a literal are read into the pending text. -/
theorem tokens_literal {t : Text} {d : Depth} (h : isLiteralFrom d t = true) (pending u : Text) :
    tokens ⟨d, pending, false⟩ (t ++ u) = tokens ⟨{}, t.reverse ++ pending, false⟩ u := by
  induction t generalizing d pending with
  | nil => rw [Depth.eq_of_isTop h]; rfl
  | cons c t ih =>
    simp only [isLiteralFrom, Bool.and_eq_true, bne_iff_ne, ne_eq] at h
    obtain ⟨⟨⟨hopen, hclose⟩, hc⟩, ht⟩ := h
    have hstep : step ⟨d, pending, false⟩ c = ([], ⟨d.after c, c :: pending, false⟩) := by
      have hb : (c == '}') = false := by simpa using hclose
      by_cases htop : (d.after c).isTop
      · simp only [htop, Bool.not_true, Bool.false_or, Bool.and_eq_true, Option.isNone_iff_eq_none,
          bne_iff_ne, ne_eq] at hc
        simp [step, impliedSibling, htop, hc, hclose, hb]
      · simp [step, impliedSibling, htop, hb]
    rw [tokens, List.cons_append, scan, hstep, List.nil_append]
    refine (ih ht (c :: pending)).trans ?_
    simp

/-- Characters between braces are read into the pending text. -/
theorem tokens_inside {t : Text} (hopen : '{' ∉ t) (hclose : '}' ∉ t) (pending u : Text) :
    tokens ⟨⟨1, 0⟩, pending, false⟩ (t ++ u) = tokens ⟨⟨1, 0⟩, t.reverse ++ pending, false⟩ u := by
  induction t generalizing pending with
  | nil => rfl
  | cons c t ih =>
    simp only [List.mem_cons, not_or] at hopen hclose
    have hafter : Depth.after ⟨1, 0⟩ c = ⟨1, 0⟩ := by
      unfold Depth.after
      split <;> simp_all
    have hb : (c == '}') = false := by simpa using Ne.symm hclose.1
    have hstep : step ⟨⟨1, 0⟩, pending, false⟩ c = ([], ⟨⟨1, 0⟩, c :: pending, false⟩) := by
      simp [step, impliedSibling, hafter, Depth.isTop, hb]
    rw [tokens, List.cons_append, scan, hstep, List.nil_append]
    refine (ih hopen.2 hclose.2 (c :: pending)).trans ?_
    simp

/-- An operator ends the pending text. Behind a closing brace a `+` follows it. -/
theorem tokens_operator {token : Token} (h : token.isOperator = true) (pending : Text) (b : Bool)
    (u : Text) :
    tokens ⟨{}, pending, b⟩ (token.text ++ u) =
      flushed pending ++ token :: ((if b then [Token.sibling] else []) ++ tokens {} u) := by
  have hstep : ∀ c, Token.operator? c = some token → Depth.after {} c = {} → (c == '}') = false →
      (c != '*') = true → tokens ⟨{}, pending, b⟩ (c :: u) =
      flushed pending ++ token :: ((if b then [Token.sibling] else []) ++ tokens {} u) := by
    intro c hop hafter hb hstar
    have htop : Depth.isTop {} = true := rfl
    rw [tokens, scan, step]
    simp only [hafter, htop, hop, if_true, impliedSibling, hstar, hb]
    cases b <;> cases pending <;> simp [flush, flushed, tokens]
  cases token with
  | times marker => cases h
  | node text => cases h
  | _ => exact hstep _ rfl rfl rfl rfl

/-- A repeat marker ends the pending text and is pending itself. -/
theorem tokens_times {marker : Text} (h : marker.all isDigit = true) (pending : Text) (b : Bool)
    (u : Text) :
    tokens ⟨{}, pending, b⟩ ((Token.times marker).text ++ u) =
      flushed pending ++ tokens ⟨{}, ('*' :: marker).reverse, false⟩ u := by
  have hplain : isLiteralFrom {} marker = true :=
    isLiteralFrom_of_plain fun c hc => isPlainChar_of_isDigit (List.all_eq_true.1 h c hc)
  have hstep : step ⟨{}, pending, b⟩ '*' = (flush ⟨{}, pending, b⟩, ⟨{}, ['*'], false⟩) := by
    cases b <;> rfl
  have hflush : (flush ⟨{}, pending, b⟩).map Lexeme.token = flushed pending := by
    cases pending <;> rfl
  rw [Token.text, List.cons_append, tokens, scan, hstep, List.map_append, hflush]
  refine congrArg (flushed pending ++ ·) ((tokens_literal hplain ['*'] u).trans ?_)
  simp

theorem flushed_node {text : Text} (h : (Token.node text).isWritten = true) :
    flushed text.reverse = [.node text] := by
  obtain ⟨hne, hhead⟩ := Token.head_of_isWritten h
  rw [flushed, List.reverse_reverse, Token.literal_of_head hhead, if_neg (by simpa using hne)]

/-- Written tokens are read back, and so is what follows them. -/
theorem tokens_source_append {before after us : List Token} {u : Text}
    (hu : ∀ free pending, isSource free after = true → (free = true → pending = []) →
      tokens ⟨{}, pending, false⟩ u = flushed pending ++ us)
    {free : Bool} (h : isSource free (before ++ after) = true) {pending : Text}
    (hp : free = true → pending = []) :
    tokens ⟨{}, pending, false⟩ (source before ++ u) = flushed pending ++ (before ++ us) := by
  induction before generalizing free pending with
  | nil => exact hu free pending h hp
  | cons token before ih =>
    simp only [List.cons_append, isSource, Bool.and_eq_true, Bool.or_eq_true] at h
    obtain ⟨⟨hw, hfree⟩, hrest⟩ := h
    rw [source_cons, List.append_assoc]
    cases token with
    | node text =>
      -- with a text pending, the node would be read as its end
      obtain rfl := hp (by simpa [Token.isNode] using hfree)
      simp only [Token.isWritten, Bool.and_eq_true] at hw
      rw [Token.text, tokens_literal hw.2, List.append_nil, ih hrest (fun hf => by cases hf),
        flushed_node (by simp [Token.isWritten, hw])]
      rfl
    | times marker =>
      rw [tokens_times hw, ih hrest (fun hf => by cases hf)]
      congr 1
      simp [flushed, Token.literal]
    | _ =>
      rw [tokens_operator rfl]
      exact congrArg _ (congrArg _ (ih hrest fun _ => rfl))

theorem tokens_source {written : List Token} {free : Bool} (h : isSource free written = true)
    {pending : Text} (hp : free = true → pending = []) :
    tokens ⟨{}, pending, false⟩ (source written) = flushed pending ++ written := by
  have h' : isSource free (written ++ []) = true := by simpa using h
  have := tokens_source_append (fun _ pending _ _ => (tokens_nil {} pending false).trans
    (List.append_nil _).symm) h' hp
  simpa using this

/-- After a closing brace, the tokens that follow are read back with a `+` behind the first. -/
theorem tokens_after_brace {after : List Token} (h : isSource false after = true) :
    tokens ⟨{}, [], true⟩ (source after) = withSibling after := by
  cases after with
  | nil => rfl
  | cons token after =>
    simp only [isSource, Bool.and_eq_true, Bool.false_or, Bool.not_eq_true'] at h
    obtain ⟨⟨hw, hnode⟩, hrest⟩ := h
    rw [source_cons]
    cases token with
    | node text => cases hnode
    | times marker =>
      rw [tokens_times hw, tokens_source hrest (fun hf => by cases hf)]
      simp [flushed, Token.literal, withSibling, Token.isOperator]
    | _ =>
      rw [tokens_operator rfl]
      exact congrArg _ (congrArg _ (congrArg _ (tokens_source hrest fun _ => rfl)))

/-- A node with a text in braces is read back as one node. -/
theorem tokens_filled {text content : Text} (hw : (Token.node text).isWritten = true)
    (hopen : '{' ∉ content) (hclose : '}' ∉ content) (u : Text) :
    tokens {} (text ++ '{' :: (content ++ '}' :: u)) =
      .node (text ++ '{' :: (content ++ ['}'])) :: tokens ⟨{}, [], true⟩ u := by
  obtain ⟨hne, hhead⟩ := Token.head_of_isWritten hw
  simp only [Token.isWritten, Bool.and_eq_true] at hw
  rw [tokens_literal hw.2]
  have hbrace : step ⟨{}, text.reverse ++ [], false⟩ '{' =
      ([], ⟨⟨1, 0⟩, '{' :: text.reverse, false⟩) := by
    simp [step, impliedSibling, Depth.after, Depth.isTop]
  rw [tokens, scan, hbrace, List.nil_append]
  refine (tokens_inside hopen hclose _ _).trans ?_
  have hend : step ⟨⟨1, 0⟩, content.reverse ++ '{' :: text.reverse, false⟩ '}' =
      ([{ token := Token.literal (text ++ '{' :: (content ++ ['}'])) }], ⟨{}, [], true⟩) := by
    simp [step, impliedSibling, Depth.after, Depth.isTop, Token.operator?]
  have hliteral : Token.literal (text ++ '{' :: (content ++ ['}'])) =
      .node (text ++ '{' :: (content ++ ['}'])) := by
    refine Token.literal_of_head ?_
    rw [List.head?_append_of_ne_nil _ hne]
    exact hhead
  rw [tokens, scan, hend, hliteral]
  rfl

end Scanner

/-! ## Reading back -/

/-- Written tokens are read back from their text. -/
theorem tokenize_source {tokens : List Token} (h : isSource true tokens = true) :
    tokenize (source tokens) = tokens :=
  Scanner.tokens_source h fun _ => rfl

/-- With a text in braces after one of the nodes, this node has the text, and a `+` follows the
operator behind it. -/
theorem tokenize_filled {before after : List Token} {text content : Text}
    (h : isSource true (before ++ .node text :: after) = true) (hopen : '{' ∉ content)
    (hclose : '}' ∉ content) :
    tokenize (source (before ++ .node (text ++ '{' :: (content ++ ['}'])) :: after)) =
      before ++ .node (text ++ '{' :: (content ++ ['}'])) :: withSibling after := by
  rw [source_append]
  refine Scanner.tokens_source_append (fun free pending ha hp => ?_) h fun _ => rfl
  simp only [isSource, Bool.and_eq_true, Bool.or_eq_true] at ha
  obtain ⟨⟨hw, hfree⟩, hrest⟩ := ha
  obtain rfl := hp (by simpa [Token.isNode] using hfree)
  rw [source_cons, Token.text, List.append_assoc, List.cons_append, List.append_assoc]
  exact (Scanner.tokens_filled hw hopen hclose _).trans
    (congrArg _ (Scanner.tokens_after_brace hrest))

/-! ## Comments -/

/-- No comment begins anywhere in the text. -/
def NoComment (t : Text) : Prop :=
  ∀ s, s <:+ t → afterLeadingComment s = none

theorem length_stripComments_le (t : Text) : (stripComments t).length ≤ t.length := by
  fun_induction stripComments t with
  | case1 => exact Nat.le_refl _
  | case2 c rest rest' h ih =>
    have := length_afterLeadingComment h
    omega
  | case3 c rest h ih =>
    rw [List.length_cons, List.length_cons]
    omega

/-- Nothing is stripped from a text exactly when no comment begins in it. -/
theorem stripComments_eq_self {t : Text} : stripComments t = t ↔ NoComment t := by
  fun_induction stripComments t with
  | case1 => simp [NoComment, afterLeadingComment]
  | case2 c rest rest' h ih =>
    refine ⟨fun hs => ?_, fun hn => ?_⟩
    · have hlen := length_afterLeadingComment h
      have := length_stripComments_le rest'
      rw [hs] at this
      omega
    · rw [hn _ List.suffix_rfl] at h
      cases h
  | case3 c rest h ih =>
    rw [List.cons_inj_right, ih]
    refine ⟨fun hn s hs => ?_, fun hn s hs => hn s (hs.trans (List.suffix_cons c rest))⟩
    rcases List.suffix_cons_iff.1 hs with rfl | hs
    · exact h
    · exact hn s hs

/-- A text without `<` has no comments. -/
theorem NoComment.of_not_mem {t : Text} (h : '<' ∉ t) : NoComment t := by
  intro s hs
  unfold afterLeadingComment
  split
  · exact absurd (hs.subset List.mem_cons_self) h
  · rfl

theorem afterComment_eq_none {t : Text} :
    afterComment t = none ↔ ¬ "-->".toList <:+: t := by
  fun_induction afterComment t with
  | case1 => simp
  | case2 rest => simpa using (List.prefix_append "-->".toList rest).isInfix
  | case3 c rest hne ih =>
    rw [ih, List.infix_cons_iff, not_or]
    refine ⟨fun h => ⟨?_, h⟩, And.right⟩
    rintro ⟨rest', h⟩
    exact hne rest' (List.cons.inj h).1.symm (List.cons.inj h).2.symm

theorem mem_of_prefix_cons {α : Type} {w y : List α} {c : α} (hne : w ≠ []) (h : w <+: c :: y) :
    c ∈ w := by
  cases w with
  | nil => exact absurd rfl hne
  | cons d w => simp [(List.cons_prefix_cons.1 h).1]

/-- A row that stands around a member which it does not hold stands on one side of it. -/
theorem infix_append_cons {α : Type} {w x y : List α} {c : α} (hc : c ∉ w)
    (h : w <:+: x ++ c :: y) : w <:+: x ∨ w <:+: y := by
  rcases List.infix_append_iff_ne_nil.1 h with h | h | ⟨v, u, -, hu, rfl, -, h⟩
  · exact .inl h
  · rcases List.infix_cons_iff.1 h with h | h
    · cases w with
      | nil => exact .inl List.nil_infix
      | cons d w => exact absurd (mem_of_prefix_cons (List.cons_ne_nil d w) h) hc
    · exact .inr h
  · exact absurd (List.mem_append_right _ (mem_of_prefix_cons hu h)) hc

/-- A character that the end of a comment does not hold may be put in without making one. -/
theorem afterComment_insert {x y : Text} {m : Char} (hm : m ∉ "-->".toList)
    (h : afterComment (x ++ y) = none) : afterComment (x ++ m :: y) = none := by
  rw [afterComment_eq_none] at h ⊢
  intro hi
  rcases infix_append_cons hm hi with hi | hi
  · exact h (List.infix_append_of_infix_left hi)
  · exact h (List.infix_append_of_infix_right hi)

theorem eq_of_afterLeadingComment {s rest : Text} (h : afterLeadingComment s = some rest) :
    ∃ t, s = '<' :: '!' :: '-' :: '-' :: t ∧ afterComment t = some rest := by
  unfold afterLeadingComment at h
  split at h
  · exact ⟨_, rfl, h⟩
  · cases h

theorem suffix_afterComment {t rest : Text} (h : afterComment t = some rest) : rest <:+ t := by
  fun_induction afterComment t with
  | case1 => cases h
  | case2 r =>
    cases h
    exact List.suffix_append "-->".toList _
  | case3 c r hc ih => exact (ih h).trans (List.suffix_cons c r)

theorem suffix_afterLeadingComment {t rest : Text} (h : afterLeadingComment t = some rest) :
    rest <:+ t := by
  obtain ⟨inside, rfl, hafter⟩ := eq_of_afterLeadingComment h
  exact (suffix_afterComment hafter).trans (List.suffix_append "<!--".toList inside)

theorem stripComments_of_some {c : Char} {rest rest' : Text}
    (h : afterLeadingComment (c :: rest) = some rest') :
    stripComments (c :: rest) = stripComments rest' := by
  rw [stripComments]
  split
  · rename_i h'
    rw [h] at h'
    cases h'
    rfl
  · rename_i h'
    rw [h] at h'
    cases h'

theorem stripComments_of_none {c : Char} {rest : Text} (h : afterLeadingComment (c :: rest) = none) :
    stripComments (c :: rest) = c :: stripComments rest := by
  rw [stripComments]
  split
  · rename_i h'
    rw [h] at h'
    cases h'
  · rfl

/-- A text in which no mark opens a comment has none. -/
theorem NoComment.of_mark_absent {t : Text} (h : ¬ "<!--".toList <:+: t) : NoComment t := by
  intro s hs
  cases hc : afterLeadingComment s with
  | none => rfl
  | some rest =>
    obtain ⟨r, rfl, -⟩ := eq_of_afterLeadingComment hc
    exact absurd ((List.prefix_append "<!--".toList r).isInfix.trans hs.isInfix) h

/-- A character that no comment mark holds may be put in without making a comment. -/
theorem NoComment.insert {x y : Text} {m : Char} (hm : m ∉ "<!->".toList)
    (h : NoComment (x ++ y)) : NoComment (x ++ m :: y) := by
  intro s hs
  cases hc : afterLeadingComment s with
  | none => rfl
  | some rest =>
    obtain ⟨t, rfl, ht⟩ := eq_of_afterLeadingComment hc
    obtain ⟨u, hu⟩ := hs
    obtain ⟨hlt, hbang, hdash, hgt⟩ : '<' ≠ m ∧ '!' ≠ m ∧ '-' ≠ m ∧ '>' ≠ m := by
      simpa [eq_comm] using hm
    rcases List.append_eq_append_iff.1 hu with ⟨v, rfl, hv⟩ | ⟨v, -, hv⟩
    · -- The comment begins before the character: at once, or after a mark that ends before it.
      match v with
      | [] | [_] | [_, _] | [_, _, _] => simp [hlt, hbang, hdash] at hv
      | a :: b :: c :: d :: z =>
        obtain ⟨rfl, rfl, rfl, rfl, rfl⟩ : '<' = a ∧ '!' = b ∧ '-' = c ∧ '-' = d ∧ t = z ++ m :: y := by
          simpa using hv
        have hnone := h ('<' :: '!' :: '-' :: '-' :: (z ++ y)) ⟨u, by simp⟩
        have hplain : afterComment (z ++ y) = none := hnone
        rw [afterComment_insert (by simp [hdash.symm, hgt.symm]) hplain] at ht
        cases ht
    · match v with
      | [] => simp [hlt.symm] at hv
      | d :: v =>
        obtain ⟨-, rfl⟩ := List.cons.inj hv
        have := h ('<' :: '!' :: '-' :: '-' :: t) ⟨x ++ v, by simp⟩
        rw [this] at hc
        cases hc

theorem NoComment.insertAll {x y text : Text} (ht : ∀ m ∈ text, m ∉ "<!->".toList)
    (h : NoComment (x ++ y)) : NoComment (x ++ (text ++ y)) := by
  induction text with
  | nil => exact h
  | cons m text ih =>
    exact (ih fun c hc => ht c (List.mem_cons_of_mem _ hc)).insert (ht m List.mem_cons_self)

/-! ## Compiling -/

/-- Without a cache, the output is the markup of the source. -/
theorem Compiler.output_expand {c : Compiler} (h : c.cache = none) (o : Occasion)
    (files : FileTree) (text : Text) (call : Option Resolver) :
    (c.expand o files text call).output = c.render text call := by
  have hcache : c.cacheFor text call = none := by simp [cacheFor, h]
  rw [expand, hcache]

theorem sourceTokens_of_noComment {text : Text} (h : NoComment text) :
    sourceTokens false text = tokenize text := by
  rw [sourceTokens, if_neg (by decide), stripComments_eq_self.2 h]

/-- The output for a text of tokens is the markup of the tokens. -/
theorem Compiler.output_source (tables : Tables) (o : Occasion) (files : FileTree)
    {tokens : List Token} (h : isSource true tokens = true) (hn : NoComment (source tokens)) :
    (expand { tables, indented := false } o files (source tokens)).output =
      expandTokens tables.attributes tables.resolver tokens := by
  rw [output_expand rfl, render, sourceTokens_of_noComment hn, tokenize_source h]
  rfl

end Shorthand
