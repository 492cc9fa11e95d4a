import Shorthand.Proofs.Content
import Shorthand.Proofs.DigitRuns
import Shorthand.Proofs.Literals

/-!
# White space around a source

Without indentation, white space has no meaning of its own: it is part of a literal.

- `Node.parse_append_blank`, `Node.parse_blank_append`: around a node, white space changes nothing.
- `SameRun`: lists of tokens that have the same effect on every expansion. A literal has it with
  white space around it.
- `tokenize_append_blank`, `tokenize_blank_append`: white space around a text joins the literal
  beside it, or is a token of its own if there is none.
- `expand_surrounded`: the output for a source with white space around it.
-/

namespace Shorthand

variable {w t u : Text} {c : Char}

/-! ## Blank characters -/

theorem isPartChar_of_isBlank (h : isBlank c = true) : Part.isPartChar c = false := by
  have hall : blankChars.all (!Part.isPartChar ·) = true := by decide +kernel
  simpa using of_all_blankChars hall h

theorem isPlainChar_of_isBlank (h : isBlank c = true) : isPlainChar c = true := by
  have hall : blankChars.all isPlainChar = true := by decide +kernel
  exact of_all_blankChars hall h

theorem not_mem_commentMarks_of_isBlank (h : isBlank c = true) : c ∉ "<!->".toList := by
  have hall : blankChars.all (!"<!->".toList.contains ·) = true := by decide +kernel
  simpa using of_all_blankChars hall h

theorem ne_of_isBlank {d : Char} (h : isBlank c = true) (hd : isBlank d = false) : c ≠ d := by
  rintro rfl
  rw [h] at hd
  cases hd

theorem not_mem_of_blank (hw : ∀ c ∈ w, isBlank c = true) (hc : isBlank c = false) : c ∉ w :=
  fun hm => ne_of_isBlank (hw c hm) hc rfl

theorem head_of_blank {p : Char → Bool} (hw : ∀ c ∈ w, isBlank c = true)
    (hp : ∀ c, isBlank c = true → p c = false) : ∀ c ∈ w.head?, p c = false :=
  fun c hc => hp c (hw c (List.mem_of_mem_head? hc))

/-! ## Nodes -/

namespace Part

theorem read?_blank (h : isBlank c = true) (t : Text) : read? (c :: t) = none := by
  have hrow : row? (c :: t) = none := by simp [row?, isPartChar_of_isBlank h]
  rw [read?, hrow, Option.map_none]
  · exact List.cons_ne_nil c t
  all_goals
    intro _ heq
    exact ne_of_isBlank h (by decide) (List.cons.inj heq).1

theorem scan_blank_append (hw : ∀ c ∈ w, isBlank c = true) (t : Text) :
    scan (w ++ t) = scan t := by
  induction w with
  | nil => rfl
  | cons c w ih =>
    obtain ⟨hc, hw⟩ := List.forall_mem_cons.1 hw
    rw [List.cons_append, scan_of_none (read?_blank hc _), ih hw]

theorem scan_blank (hw : ∀ c ∈ w, isBlank c = true) : scan w = [] := by
  rw [← List.append_nil w, scan_blank_append hw]
  simp [scan, read?]

end Part

namespace Node

theorem parse_blank_append (table : Table) (hw : ∀ c ∈ w, isBlank c = true) (t : Text) :
    parse table (w ++ t) = parse table t := by
  rw [parse, Part.scan_blank_append hw, parse]

theorem parse_blank (table : Table) (hw : ∀ c ∈ w, isBlank c = true) : parse table w = {} := by
  rw [parse, Part.scan_blank hw]
  rfl

theorem parse_append_blank (table : Table) (hw : ∀ c ∈ w, isBlank c = true) (t : Text) :
    parse table (t ++ w) = parse table t := by
  have hhead := head_of_blank hw fun c => isPartChar_of_isBlank
  have hbracket : ']' ∉ w := not_mem_of_blank hw (by decide)
  have hbrace : '}' ∉ w := not_mem_of_blank hw (by decide)
  rw [parse, Part.scan_append hhead hbracket fun _ => hbrace, Part.scan_blank hw, List.append_nil,
    parse]

end Node

/-! ## Tokens of the same effect -/

/-- The lists of tokens have the same effect on every expansion. -/
def SameRun (tokens tokens' : List Token) : Prop :=
  ∀ attributes resolver e, Expansion.run attributes resolver e tokens =
    Expansion.run attributes resolver e tokens'

namespace SameRun

theorem refl (tokens : List Token) : SameRun tokens tokens :=
  fun _ _ _ => rfl

theorem append {ts ts' us us' : List Token} (ht : SameRun ts ts') (hu : SameRun us us') :
    SameRun (ts ++ us) (ts' ++ us') := by
  intro attributes resolver e
  rw [Expansion.run_append, Expansion.run_append, ht]
  exact bind_congr_ok fun e' _ => hu attributes resolver e'

theorem expandTokens_eq {tokens tokens' : List Token} (h : SameRun tokens tokens')
    (attributes : Table) (resolver : Resolver) :
    expandTokens attributes resolver tokens = expandTokens attributes resolver tokens' := by
  rw [expandTokens, h, expandTokens]

/-- Nodes that are read as the same have the same effect. -/
theorem node (h : ∀ table, Node.parse table t = Node.parse table u) :
    SameRun [.node t] [.node u] := by
  intro attributes resolver e
  rw [Expansion.run_singleton, Expansion.run_singleton]
  show Expansion.writeNode attributes resolver e t = Expansion.writeNode attributes resolver e u
  rw [Expansion.writeNode, h, Expansion.writeNode]

/-- White space behind a literal does not change its effect. -/
theorem literal_append_blank (hw : ∀ c ∈ w, isBlank c = true) (hu : u ≠ []) :
    SameRun [Token.literal (u ++ w)] [Token.literal u] := by
  obtain ⟨c, u, rfl⟩ := List.exists_cons_of_ne_nil hu
  by_cases hc : c = '*'
  · subst hc
    intro attributes resolver e
    have hdigits : (u ++ w).takeWhile isDigit = u.takeWhile isDigit :=
      Text.takeWhile_append_of_head (head_of_blank hw fun c => isDigit_of_isBlank) u
    rw [Expansion.run_singleton, Expansion.run_singleton]
    show e.repeatLast (u ++ w) = e.repeatLast u
    rw [Expansion.repeatLast, hdigits, Expansion.repeatLast]
  · rw [Token.literal_of_head (by simpa using hc), Token.literal_of_head (by simpa using hc)]
    exact node fun table => Node.parse_append_blank table hw (c :: u)

/-- White space before a node does not change its effect. -/
theorem literal_blank_append (hw : ∀ c ∈ w, isBlank c = true) (hu : u.head? ≠ some '*') :
    SameRun [Token.literal (w ++ u)] [Token.literal u] := by
  have hhead : (w ++ u).head? ≠ some '*' := by
    intro hc
    rw [List.head?_append, Option.or_eq_some_iff] at hc
    rcases hc with hc | ⟨-, hc⟩
    · exact not_mem_of_blank hw (by decide) (List.mem_of_mem_head? hc)
    · exact hu hc
  rw [Token.literal_of_head hhead, Token.literal_of_head hu]
  exact node fun table => Node.parse_blank_append table hw u

end SameRun

/-! ## Tokens of a surrounded text -/

/-- The first character of the text belongs to a literal that is not a repeat marker. -/
def beginsInLiteral (t : Text) : Bool :=
  t.head?.any fun c => (Token.operator? c).isNone && c != '*'

/-- The last character of the text, if it stands at the top level, belongs to a literal that goes
on behind it. -/
def endsInLiteral (t : Text) : Bool :=
  t.getLast?.any fun c => (Token.operator? c).isNone && c != '}'

theorem head_of_beginsInLiteral (h : beginsInLiteral t = true) : t.head? ≠ some '*' := by
  intro hstar
  rw [beginsInLiteral, hstar] at h
  cases h

namespace Scanner

/-- White space is read into the pending text. -/
theorem step_blank (s : Scanner) (h : isBlank c = true) :
    s.step c = (s.impliedSibling c, ⟨s.depth, c :: s.pending, false⟩) := by
  have hplain := isPlainChar_of_isBlank h
  have hbrace : c ≠ '}' := ne_of_isBlank h (by decide)
  have hstar : c ≠ '*' := ne_of_isBlank h (by decide)
  simp [step, Depth.after_of_plain hplain, operator?_of_plain hplain, hbrace, hstar]

/-- White space is read into the pending text. -/
theorem tokens_blank_append (hw : ∀ c ∈ w, isBlank c = true) (pending u : Text) :
    tokens ⟨{}, pending, false⟩ (w ++ u) = tokens ⟨{}, w.reverse ++ pending, false⟩ u :=
  tokens_literal (isLiteralFrom_of_plain fun c hc => isPlainChar_of_isBlank (hw c hc)) pending u

theorem flushed_blank (hw : ∀ c ∈ w, isBlank c = true) (hne : w ≠ []) :
    flushed w.reverse = [.node w] := by
  have hhead : w.head? ≠ some '*' := fun hc =>
    not_mem_of_blank hw (by decide) (List.mem_of_mem_head? hc)
  rw [flushed, if_neg (by simpa using hne), List.reverse_reverse, Token.literal_of_head hhead]

/-- With nothing pending, white space is a literal. -/
theorem tokens_blank (hw : ∀ c ∈ w, isBlank c = true) (hne : w ≠ []) (b : Bool) :
    tokens ⟨{}, [], b⟩ w = (if b then [.sibling] else []) ++ [.node w] := by
  obtain ⟨c, w, rfl⟩ := List.exists_cons_of_ne_nil hne
  obtain ⟨hc, hrest⟩ := List.forall_mem_cons.1 hw
  have hstar : c ≠ '*' := ne_of_isBlank hc (by decide)
  have himplied : (impliedSibling ⟨{}, [], b⟩ c).map Lexeme.token = if b then [.sibling] else [] := by
    cases b <;> simp [impliedSibling, Depth.after_of_plain (isPlainChar_of_isBlank hc), hstar,
      Depth.isTop]
  have hrow := tokens_blank_append hrest [c] []
  rw [List.append_nil, tokens_nil, ← List.reverse_cons, flushed_blank hw hne] at hrow
  rw [tokens, scan, step_blank _ hc, List.map_append, himplied, ← hrow]
  rfl

/-- At the top level, a literal is pending exactly behind its own characters. -/
theorem pending_after (htop : (depthAfter t).isTop = true) :
    (after {} t).pending = [] ↔ endsInLiteral t = false := by
  rcases t.eq_nil_or_concat' with rfl | ⟨t, c, rfl⟩
  · exact ⟨fun _ => rfl, fun _ => rfl⟩
  have hdepth : (after {} t).depth.after c = depthAfter (t ++ [c]) := by
    rw [depthAfter_concat, depth_after]
  rw [after_concat, endsInLiteral, List.getLast?_concat, Option.any_some]
  obtain ⟨op, hop, -, hs⟩ | ⟨rfl, -, hs⟩ | ⟨rfl, -, hs⟩ | ⟨hinside, hbrace, hs⟩ :=
    (after {} t).step_cases c
  · simp [hs, hop]
  · simp [hs, Token.operator?]
  · simp [hs]
  · have hop : Token.operator? c = none := by
      cases hop : Token.operator? c with
      | none => rfl
      | some op =>
        rw [Depth.after_operator hop] at hdepth
        have hnot := hinside (.inl (by rw [hop]; rfl))
        rw [hdepth, htop] at hnot
        cases hnot
    have hne : c ≠ '}' := by
      intro hc
      have hnot := hbrace hc
      rw [hdepth, htop] at hnot
      cases hnot
    simp [hs, hop, hne]

theorem sameRun_flushed (hw : ∀ c ∈ w, isBlank c = true) {pending : Text} (hne : pending ≠ [])
    (hhead : pending.reverse.head? ≠ some '*') :
    SameRun (flushed (pending ++ w.reverse)) (flushed pending) := by
  rw [flushed, if_neg (by simp [hne]), flushed, if_neg (by simp [hne]), List.reverse_append,
    List.reverse_reverse]
  exact SameRun.literal_blank_append hw hhead

/-- What a character does to the pending text, whatever that is: it ends it, is the closing brace at
its end, or goes on with it. -/
theorem step_pending (d : Depth) (b : Bool) (c : Char) :
    let implied := impliedSibling ⟨d, [], b⟩ c
    let next (pending : Text) : Scanner := ⟨d.after c, pending, c == '}'⟩
    (((Token.operator? c).isSome = true ∨ c = '*') ∧ ∃ ls row, ∀ pending,
      step ⟨d, pending, b⟩ c = (flush ⟨d, pending, b⟩ ++ ls, next row)) ∨
    (c = '}' ∧ ∀ pending, step ⟨d, pending, b⟩ c =
      ({ token := Token.literal (pending.reverse ++ ['}']) } :: implied, next [])) ∨
    ∀ pending, step ⟨d, pending, b⟩ c = (implied, next (c :: pending)) := by
  intro implied next
  have himplied : ∀ pending, impliedSibling ⟨d, pending, b⟩ c = implied := fun _ => rfl
  cases htop : (d.after c).isTop with
  | false => exact .inr (.inr fun _ => by simp [step, htop, himplied, next])
  | true =>
    cases hop : Token.operator? c with
    | some op =>
      refine .inl ⟨.inl rfl, { token := op } :: implied, [], fun _ => ?_⟩
      simp [step, htop, hop, himplied, next]
    | none =>
      by_cases hbrace : c = '}'
      · subst hbrace
        exact .inr (.inl ⟨rfl, fun _ => by simp [step, htop, hop, himplied, next]⟩)
      · by_cases hstar : c = '*'
        · subst hstar
          rw [Depth.after_star] at htop
          exact .inl ⟨.inr rfl, [], ['*'], fun _ => by simp [step, htop, hop, next]⟩
        · exact .inr (.inr fun _ => by simp [step, htop, hop, hbrace, hstar, himplied, next])

/-- White space at the start of what is pending does not change the effect of the tokens, if a
literal follows it. -/
theorem sameRun_pending (hw : ∀ c ∈ w, isBlank c = true) {d : Depth} {pending : Text} {b : Bool}
    (hbegins : beginsInLiteral (pending.reverse ++ t) = true) :
    SameRun (tokens ⟨d, pending ++ w.reverse, b⟩ t) (tokens ⟨d, pending, b⟩ t) := by
  induction t generalizing d pending b with
  | nil =>
    rw [List.append_nil] at hbegins
    have hne : pending ≠ [] := by
      rintro rfl
      cases hbegins
    rw [tokens_nil, tokens_nil]
    exact sameRun_flushed hw hne (head_of_beginsInLiteral hbegins)
  | cons c t ih =>
    have hhead := head_of_beginsInLiteral hbegins
    obtain ⟨hc, ls, row, hs⟩ | ⟨rfl, hs⟩ | hs := step_pending d b c
    all_goals rw [tokens, scan, hs, List.map_append, tokens, scan, hs, List.map_append]
    · have hne : pending ≠ [] := by
        rintro rfl
        rcases hc with hc | rfl
        · obtain ⟨op, hop⟩ := Option.isSome_iff_exists.1 hc
          simp [beginsInLiteral, hop] at hbegins
        · exact hhead rfl
      have hflush : ∀ pending, (flush ⟨d, pending, b⟩).map Lexeme.token = flushed pending :=
        fun pending => by cases pending <;> rfl
      rw [List.map_append, List.map_append, hflush, hflush]
      rw [List.head?_append_of_ne_nil _ (by simpa using hne)] at hhead
      exact ((sameRun_flushed hw hne hhead).append (SameRun.refl _)).append (SameRun.refl _)
    · have hclosed : (pending.reverse ++ ['}']).head? ≠ some '*' := by
        rwa [List.head?_append] at hhead ⊢
      rw [List.reverse_append, List.reverse_reverse, List.append_assoc]
      exact ((SameRun.literal_blank_append hw hclosed).append (SameRun.refl _)).append (SameRun.refl _)
    · have hrest : beginsInLiteral ((c :: pending).reverse ++ t) = true := by simpa using hbegins
      exact (SameRun.refl _).append (ih hrest)

end Scanner

/-- **White space behind a text** joins the literal that the text ends in. Behind a text that does
not end in a literal, it is a token of its own, with a `+` before it if the text ends with a closing
brace. -/
theorem tokenize_append_blank (hw : ∀ c ∈ w, isBlank c = true)
    (htop : (depthAfter t).isTop = true) :
    (endsInLiteral t = true → SameRun (tokenize (t ++ w)) (tokenize t)) ∧
    (endsInLiteral t = false → w ≠ [] → tokenize (t ++ w) =
      tokenize t ++ (if t.getLast? = some '}' then [.sibling] else []) ++ [.node w]) := by
  obtain ⟨pending, hafter, hpending⟩ : ∃ pending,
      Scanner.after {} t = ⟨{}, pending, t.getLast? == some '}'⟩ ∧
      (pending = [] ↔ endsInLiteral t = false) := by
    refine ⟨(Scanner.after {} t).pending, (Scanner.after_eq t).trans ?_, Scanner.pending_after htop⟩
    rw [Depth.eq_of_isTop htop]
  have hbefore : tokenize t =
      (Scanner.completed {} t).map Lexeme.token ++ Scanner.flushed pending := by
    have h := Scanner.tokens_append {} t []
    rwa [hafter, Scanner.tokens_nil, List.append_nil] at h
  have hwhole : tokenize (t ++ w) = (Scanner.completed {} t).map Lexeme.token ++
      Scanner.tokens ⟨{}, pending, t.getLast? == some '}'⟩ w := by
    rw [← hafter]
    exact Scanner.tokens_append {} t w
  constructor
  · intro hends
    have hlast : (t.getLast? == some '}') = false := by
      rw [beq_eq_false_iff_ne]
      intro hlast
      rw [endsInLiteral, hlast] at hends
      cases hends
    have hne : pending ≠ [] := by
      rw [ne_eq, hpending, hends]
      decide
    have hjoined := Scanner.tokens_blank_append hw pending []
    rw [List.append_nil, Scanner.tokens_nil] at hjoined
    rw [hwhole, hbefore, hlast, hjoined]
    refine (SameRun.refl _).append ?_
    have h := SameRun.literal_append_blank hw (List.reverse_ne_nil_iff.2 hne)
    simpa [Scanner.flushed, hne] using h
  · intro hends hne
    obtain rfl := hpending.2 hends
    rw [hwhole, hbefore, Scanner.tokens_blank hw hne]
    simp [Scanner.flushed]

/-- **White space before a text** joins the literal that the text begins with. Before a text that
does not begin with a literal, it is a token of its own. -/
theorem tokenize_blank_append (hw : ∀ c ∈ w, isBlank c = true) (t : Text) :
    (beginsInLiteral t = true → SameRun (tokenize (w ++ t)) (tokenize t)) ∧
    (beginsInLiteral t = false → w ≠ [] → tokenize (w ++ t) = .node w :: tokenize t) := by
  have hjoined : tokenize (w ++ t) = Scanner.tokens ⟨{}, w.reverse, false⟩ t := by
    have h := Scanner.tokens_blank_append hw [] t
    rwa [List.append_nil] at h
  rw [hjoined]
  constructor
  · intro hbegins
    have hstart : beginsInLiteral (([] : Text).reverse ++ t) = true := hbegins
    exact Scanner.sameRun_pending hw hstart
  · intro hbegins hne
    -- nothing of the text joins what is pending before it
    obtain ⟨us, hus⟩ : ∃ us, ∀ pending,
        Scanner.tokens ⟨{}, pending, false⟩ t = Scanner.flushed pending ++ us := by
      cases t with
      | nil => exact ⟨[], fun pending => by rw [Scanner.tokens_nil, List.append_nil]⟩
      | cons c t =>
        cases hop : Token.operator? c with
        | some op =>
          have h := fun pending =>
            Scanner.tokens_operator (Token.isOperator_of_operator? hop) pending false t
          rw [Token.text_of_operator? hop] at h
          exact ⟨_, h⟩
        | none =>
          obtain rfl : c = '*' := by simpa [beginsInLiteral, hop] using hbegins
          refine ⟨Scanner.tokens ⟨{}, ['*'], false⟩ t, fun pending => ?_⟩
          cases pending <;> rfl
    rw [hus, Scanner.flushed_blank hw hne]
    exact congrArg (Token.node w :: ·) (hus []).symm

/-! ## Comments -/

/-- A beginning without characters of `w` does not reach into `w`. -/
theorem prefix_of_prefix_append {α : Type} {p s w : List α} (hw : ∀ x ∈ w, x ∉ p)
    (h : p <+: s ++ w) : p <+: s := by
  obtain ⟨r, hr⟩ := h
  rcases List.append_eq_append_iff.1 hr with ⟨v, rfl, -⟩ | ⟨v, rfl, hv⟩
  · exact List.prefix_append p v
  · cases v with
    | nil => simp
    | cons x v => exact absurd (by simp) (hw x (by simp [hv]))

theorem afterComment_append (hw : ∀ c ∈ w, c ∉ "<!->".toList) (t : Text) :
    afterComment (t ++ w) = (afterComment t).map (· ++ w) := by
  fun_induction afterComment t with
  | case1 =>
    refine afterComment_eq_none.2 fun h => ?_
    exact hw '-' (h.subset (by decide)) (by decide)
  | case2 rest => rfl
  | case3 c rest hne ih =>
    rw [List.cons_append, afterComment, ih]
    intro r hc hr
    have hprefix : "-->".toList <+: (c :: rest) ++ w := ⟨r, by rw [hc, List.cons_append, hr]; rfl⟩
    obtain ⟨r', hr'⟩ := prefix_of_prefix_append (fun x hx hm => hw x hx (by simp_all)) hprefix
    exact hne r' hc (List.cons.inj hr').2.symm

theorem afterLeadingComment_append (hw : ∀ c ∈ w, c ∉ "<!->".toList) (t : Text) :
    afterLeadingComment (t ++ w) = (afterLeadingComment t).map (· ++ w) := by
  by_cases h : "<!--".toList <+: t
  · obtain ⟨r, rfl⟩ := h
    exact afterComment_append hw r
  · have hnone : ∀ s, ¬ "<!--".toList <+: s → afterLeadingComment s = none := by
      intro s hs
      cases hrest : afterLeadingComment s with
      | none => rfl
      | some rest =>
        obtain ⟨r, rfl, -⟩ := eq_of_afterLeadingComment hrest
        exact absurd ⟨r, rfl⟩ hs
    have hwhole : ¬ "<!--".toList <+: t ++ w := fun hp =>
      h (prefix_of_prefix_append (fun x hx hm => hw x hx (by simp_all)) hp)
    rw [hnone _ hwhole, hnone _ h]
    rfl

/-- White space behind a text is behind it without its comments. -/
theorem stripComments_append_blank (hw : ∀ c ∈ w, isBlank c = true) (t : Text) :
    stripComments (t ++ w) = stripComments t ++ w := by
  have hmarks : ∀ c ∈ w, c ∉ "<!->".toList :=
    fun c hc => not_mem_commentMarks_of_isBlank (hw c hc)
  fun_induction stripComments t with
  | case1 => exact stripComments_eq_self.2 (.of_not_mem (not_mem_of_blank hw (by decide)))
  | case2 c rest rest' h ih =>
    have hwhole := afterLeadingComment_append hmarks (c :: rest)
    rw [h] at hwhole
    exact (stripComments_of_some hwhole).trans ih
  | case3 c rest h ih =>
    have hwhole := afterLeadingComment_append hmarks (c :: rest)
    rw [h] at hwhole
    exact (stripComments_of_none hwhole).trans (congrArg (c :: ·) ih)

/-- White space before a text is before it without its comments. -/
theorem stripComments_blank_append (hw : ∀ c ∈ w, isBlank c = true) (t : Text) :
    stripComments (w ++ t) = w ++ stripComments t := by
  induction w with
  | nil => rfl
  | cons c w ih =>
    obtain ⟨hc, hrest⟩ := List.forall_mem_cons.1 hw
    have hnone : afterLeadingComment (c :: (w ++ t)) = none := by
      cases h : afterLeadingComment (c :: (w ++ t)) with
      | none => rfl
      | some rest =>
        obtain ⟨r, hr, -⟩ := eq_of_afterLeadingComment h
        exact absurd (List.cons.inj hr).1 (ne_of_isBlank hc (by decide))
    rw [List.cons_append, stripComments_of_none hnone, ih hrest, List.cons_append]

/-! ## Compiling -/

/-- The markup has the closing fragments of the open tags, whether they are closed now or at the
end. -/
theorem Expansion.finish_closeTags (n : Nat) (e : Expansion) : (closeTags n e).finish = e.finish := by
  rw [finish_eq, finish_eq, closeTags_eq, List.append_assoc, ← closings_append,
    List.take_append_drop]

/-- A node with a tag makes the markup longer. -/
theorem Expansion.length_finish_writeNode {attributes : Table} {resolver : Resolver}
    {e e' : Expansion} (ht : (Node.parse attributes t).isText = false)
    (h : writeNode attributes resolver e t = .ok e') : e.finish.length < e'.finish.length := by
  rcases writeNode_eq_ok h with ⟨htext, -⟩ | ⟨-, tag, -, rfl⟩
  · rw [ht] at htext
    cases htext
  · have hopening : 0 < (openingFragment tag (Node.parse attributes t)).length := Nat.succ_pos _
    rw [finish_eq, finish_eq, closings_cons]
    simp only [List.flatten_append, List.length_append, List.flatten_cons, List.flatten_nil,
      List.length_nil]
    omega

/-- One more node with a tag is seen in the markup. -/
theorem expandTokens_node_ne {attributes : Table} {resolver : Resolver} {tokens : List Token}
    {markup : Text} (h : expandTokens attributes resolver tokens = .ok markup)
    (ht : (Node.parse attributes t).isText = false) (b : Bool) :
    expandTokens attributes resolver (tokens ++ (if b then [.sibling] else []) ++ [.node t]) ≠
      .ok markup := by
  intro hmore
  obtain ⟨e, hrun, hfinish⟩ := bind_eq_ok h
  obtain ⟨e', hrun', hfinish'⟩ := bind_eq_ok hmore
  cases hfinish
  obtain ⟨n, hclosed⟩ : ∃ n, Expansion.run attributes resolver e (if b then [.sibling] else []) =
      .ok (Expansion.closeTags n e) := by
    cases b with
    | false => exact ⟨0, rfl⟩
    | true => exact ⟨e.openCount, (Expansion.run_singleton _).trans Expansion.step_sibling⟩
  rw [Expansion.run_append, Expansion.run_append, hrun, ok_bind, hclosed, ok_bind,
    Expansion.run_singleton] at hrun'
  have hlonger := Expansion.length_finish_writeNode ht hrun'
  rw [Expansion.finish_closeTags, ← Except.ok.inj hfinish'] at hlonger
  exact lt_irrefl _ hlonger

/-- **White space around a source.** At an end of the source that is a literal, white space changes
nothing. At any other end it is a node of its own, with nothing in it: behind the source as the last
node, with a `+` before it if the source ends with a closing brace, so that the markup is longer; and
before the source as the first node. -/
theorem expand_surrounded (tables : Tables) (o : Occasion) (files : FileTree) {text : Text}
    (hw : ∀ c ∈ w, isBlank c = true) (htop : (depthAfter (stripComments text)).isTop = true) :
    let body := stripComments text
    let output (source : Text) :=
      (Compiler.expand { tables, indented := false } o files source).output
    let markup := expandTokens tables.attributes tables.resolver
    Node.parse tables.attributes w = {} ∧
    (w = [] ∨ endsInLiteral body = true → output (text ++ w) = output text) ∧
    (w ≠ [] → endsInLiteral body = false →
      output (text ++ w) = markup
        (tokenize body ++ (if body.getLast? = some '}' then [.sibling] else []) ++ [.node w]) ∧
      ∀ out, output text = .ok out → output (text ++ w) ≠ .ok out) ∧
    (w = [] ∨ beginsInLiteral body = true → output (w ++ text) = output text) ∧
    (w ≠ [] → beginsInLiteral body = false →
      output (w ++ text) = markup (.node w :: tokenize body)) := by
  intro body output markup
  have hparse := Node.parse_blank tables.attributes hw
  have houtput : ∀ source, output source = markup (tokenize (stripComments source)) := by
    intro source
    show (Compiler.expand _ o files source).output = _
    rw [Compiler.output_expand rfl, Compiler.render]
    rfl
  have hbehind : output (text ++ w) = markup (tokenize (body ++ w)) := by
    rw [houtput, stripComments_append_blank hw]
  have hbefore : output (w ++ text) = markup (tokenize (w ++ body)) := by
    rw [houtput, stripComments_blank_append hw]
  obtain ⟨happend, hnode⟩ := tokenize_append_blank hw htop
  obtain ⟨hprepend, hfirst⟩ := tokenize_blank_append hw body
  refine ⟨hparse, ?_, ?_, ?_, ?_⟩
  · rintro (rfl | hends)
    · rw [List.append_nil]
    · rw [hbehind, houtput]
      exact (happend hends).expandTokens_eq _ _
  · intro hne hends
    rw [hbehind, hnode hends hne]
    refine ⟨rfl, fun out hout => ?_⟩
    rw [houtput] at hout
    have htext : (Node.parse tables.attributes w).isText = false := by rw [hparse]; rfl
    have hmore := expandTokens_node_ne hout htext (body.getLast? == some '}')
    simpa using hmore
  · rintro (rfl | hbegins)
    · rfl
    · rw [hbefore, houtput]
      exact (hprepend hbegins).expandTokens_eq _ _
  · intro hne hbegins
    rw [hbefore, hfirst hbegins hne]

/-- a line end behind `<!-- list -->ul>li*2` and before it -/
theorem expand_surrounded_line :
    let text := "<!-- list -->ul>li*2".toList
    let output (source : Text) := (Compiler.expand { indented := false } {} .nil source).output
    let markup := "<ul><li></li><li></li></ul>".toList
    (∀ c ∈ ['\n'], isBlank c = true) ∧ (depthAfter (stripComments text)).isTop = true ∧
      output (text ++ ['\n']) = .ok markup ∧ output (['\n'] ++ text) = .ok markup := by
  intro text output markup
  have hw : ∀ c ∈ ['\n'], isBlank c = true := List.all_eq_true.1 (by decide)
  have htop : (depthAfter (stripComments text)).isTop = true := by decide +kernel
  have hbare : output text = .ok markup := by decide +kernel
  obtain ⟨-, hbehind, -, hbefore, -⟩ := expand_surrounded {} {} .nil hw htop
  exact ⟨hw, htop, (hbehind (.inr (by decide +kernel))).trans hbare,
    (hbefore (.inr (by decide +kernel))).trans hbare⟩

/-- a line end behind `p{x}` or before `(p)` is a node of its own -/
theorem expand_surrounded_node :
    let output (source : String) :=
      (Compiler.expand { indented := false } {} .nil source.toList).output
    isBlank '\n' = true ∧
      (depthAfter (stripComments "p{x}".toList)).isTop = true ∧
      output "p{x}" = .ok "<p>x</p>".toList ∧
      output "p{x}\n" = .ok "<p>x</p><div></div>".toList ∧
      (depthAfter (stripComments "(p)".toList)).isTop = true ∧
      output "(p)" = .ok "<p></p>".toList ∧
      output "\n(p)" = .ok "<div><p></p></div>".toList := by
  decide +kernel

end Shorthand
