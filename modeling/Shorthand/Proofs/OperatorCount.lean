import Shorthand.Proofs.Indentation
import Shorthand.Proofs.Lexemes
import Shorthand.Proofs.Spans

/-!
# Operators of a line

The operators in a line shift the level that the next line is compared with. They are counted by the
quoted and braced spans of the line, the scanner finds them by the depth of braces and brackets.

- `spanMarks`: the characters that the count passes over; `count_withoutSpans` counts the others.
- `coverMarks`: the characters in a comment or below the top level; `count_tokenize` counts the
  operators among the others, which are the tokens.
- `countOutsideSpans_eq_iff`: the count is that of the tokens exactly if as many operators are
  counted that are text as are passed over that are tokens.
- `FlatLine`: no backslashes, quotes only in braces and brackets, and neither of these in the other
  or in itself; in such a line the count is that of the tokens.
-/

namespace Shorthand

/-! ## Marks -/

/-- For each character of a line, whether it is in a quoted or braced span. -/
def spanMarks (escaped : Bool) (t : Text) : List Bool :=
  match t with
  | [] => []
  | c :: rest =>
    match _ : (if escaped then none else spanCloser? c).bind (afterSpan · rest) with
    | some rest' =>
      List.replicate ((c :: rest).length - rest'.length) true ++ spanMarks false rest'
    | none => false :: spanMarks (c == '\\') rest
termination_by t.length
decreasing_by
  · obtain ⟨close, -, hr⟩ := Option.bind_eq_some_iff.1 ‹_›
    have := length_afterSpan hr
    simp; omega
  · simp

/-- For each character of a line that is read from the depth `d` on, whether it is in a comment, or
braces or brackets are open after it. -/
def coverMarks (d : Depth) (t : Text) : List Bool :=
  match t with
  | [] => []
  | c :: rest =>
    match _ : afterLeadingComment (c :: rest) with
    | some rest' => List.replicate ((c :: rest).length - rest'.length) true ++ coverMarks d rest'
    | none => (!(d.after c).isTop) :: coverMarks (d.after c) rest
termination_by t.length
decreasing_by
  · exact length_afterLeadingComment ‹_›
  · simp

theorem length_spanMarks (escaped : Bool) (t : Text) :
    (spanMarks escaped t).length = t.length := by
  fun_induction spanMarks escaped t with
  | case1 => rfl
  | case2 escaped c rest rest' h ih =>
    obtain ⟨close, -, hr⟩ := Option.bind_eq_some_iff.1 h
    have := length_afterSpan hr
    simp only [List.length_append, List.length_replicate, List.length_cons, ih]
    omega
  | case3 escaped c rest h ih => rw [List.length_cons, List.length_cons, ih]

theorem length_coverMarks (d : Depth) (t : Text) : (coverMarks d t).length = t.length := by
  fun_induction coverMarks d t with
  | case1 => rfl
  | case2 d c rest rest' h ih =>
    have := length_afterLeadingComment h
    simp only [List.length_append, List.length_replicate, List.length_cons, ih] at this ⊢
    omega
  | case3 d c rest h ih => rw [List.length_cons, List.length_cons, ih]

/-! ## Counting by marks -/

/-- How often `c` stands in a text without a mark. -/
def countUnmarked (c : Char) (t : Text) (marks : List Bool) : Nat :=
  (t.zip marks).count (c, false)

theorem countUnmarked_cons (c d : Char) (mark : Bool) (t : Text) (marks : List Bool) :
    countUnmarked c (d :: t) (mark :: marks) =
      countUnmarked c t marks + if d = c ∧ mark = false then 1 else 0 := by
  simp [countUnmarked, List.count_cons]

/-- A front that is marked as a whole is not counted. -/
theorem countUnmarked_replicate {c : Char} {t rest : Text} (h : rest <:+ t) (marks : List Bool) :
    countUnmarked c t (List.replicate (t.length - rest.length) true ++ marks) =
      countUnmarked c rest marks := by
  obtain ⟨front, rfl⟩ := h
  rw [List.length_append, Nat.add_sub_cancel]
  induction front with
  | nil => rfl
  | cons d front ih =>
    rw [List.cons_append, List.length_cons, List.replicate_succ, List.cons_append,
      countUnmarked_cons, ih]
    simp

/-- Of two marks, each leaves uncounted what it alone is at. -/
theorem countUnmarked_add {t : Text} {marks others : List Bool} (c : Char)
    (h : marks.length = t.length) (h' : others.length = t.length) :
    countUnmarked c t marks + (t.zip (marks.zip others)).count (c, true, false) =
      countUnmarked c t others + (t.zip (marks.zip others)).count (c, false, true) := by
  induction t generalizing marks others with
  | nil => simp [countUnmarked]
  | cons d t ih =>
    obtain ⟨mark, marks, rfl⟩ := List.exists_cons_of_length_eq_add_one h
    obtain ⟨other, others, rfl⟩ := List.exists_cons_of_length_eq_add_one h'
    have hrest := ih (Nat.succ.inj h) (Nat.succ.inj h')
    simp only [countUnmarked_cons, List.zip_cons_cons, List.count_cons, beq_iff_eq, Prod.mk.injEq]
    by_cases hd : d = c <;> cases mark <;> cases other <;> simp [hd] <;> omega

/-! ## The two counts -/

theorem suffix_of_afterSpan {close : Char} {t rest : Text} (h : afterSpan close t = some rest) :
    rest <:+ t := by
  fun_induction afterSpan close t with
  | case1 => cases h
  | case2 => cases h
  | case3 => cases h
  | case4 c r _ ih => exact (ih h).trans ((List.suffix_cons c r).trans (List.suffix_cons _ _))
  | case5 r =>
    cases h
    exact List.suffix_cons _ _
  | case6 c r _ _ _ ih => exact (ih h).trans (List.suffix_cons c r)

/-- What is left of a line without its spans are its characters without a mark. -/
theorem count_withoutSpans (c : Char) (escaped : Bool) (t : Text) :
    (withoutSpans escaped t).count c = countUnmarked c t (spanMarks escaped t) := by
  fun_induction spanMarks escaped t with
  | case1 => rw [withoutSpans]; rfl
  | case2 escaped d rest rest' h ih =>
    obtain ⟨close, -, hr⟩ := Option.bind_eq_some_iff.1 h
    have hsuffix : rest' <:+ d :: rest := (suffix_of_afterSpan hr).trans (List.suffix_cons d rest)
    rw [withoutSpans_of_some h, countUnmarked_replicate hsuffix, ih]
  | case3 escaped d rest h ih =>
    rw [withoutSpans_of_none h, countUnmarked_cons, ← ih, List.count_cons]
    simp

theorem Token.operator?_inj {c d : Char} {op : Token} (hc : operator? c = some op)
    (hd : operator? d = some op) : d = c := by
  have htext := (text_of_operator? hd).symm.trans (text_of_operator? hc)
  exact (List.cons.inj htext).1

theorem Token.literal_ne_of_operator? {c : Char} {op : Token} (h : operator? c = some op)
    (t : Text) : literal t ≠ op := by
  intro heq
  unfold literal at heq
  unfold operator? at h
  split at h <;> cases h <;> split at heq <;> cases heq

namespace Scanner

variable {c : Char} {op : Token}

theorem count_flush (hop : Token.operator? c = some op) (s : Scanner) :
    (s.flush.map Lexeme.token).count op = 0 := by
  rw [flush]
  split
  · rfl
  · simp [Token.literal_ne_of_operator? hop]

theorem count_impliedSibling (hop : op ≠ .sibling) (s : Scanner) (d : Char) :
    ((s.impliedSibling d).map Lexeme.token).count op = 0 := by
  rw [impliedSibling]
  split
  · simp [Ne.symm hop]
  · rfl

/-- Reading a character completes an operator exactly if it stands for it at the top level. -/
theorem count_step (hop : Token.operator? c = some op) (hne : op ≠ .sibling) (s : Scanner)
    (d : Char) : ((s.step d).1.map Lexeme.token).count op =
      if d = c ∧ s.depth.isTop = true then 1 else 0 := by
  have hflush := count_flush hop s
  have himplied := count_impliedSibling hne s d
  obtain ⟨op', hop', htop, hstep⟩ | ⟨rfl, -, hstep⟩ | ⟨rfl, -, hstep⟩ | ⟨hinside, -, hstep⟩ :=
    step_cases s d
  all_goals rw [hstep]
  · by_cases hd : d = c
    · subst hd
      obtain rfl : op = op' := Option.some.inj (hop.symm.trans hop')
      simp [hflush, himplied, htop]
    · have hops : op' ≠ op := fun heq => hd (Token.operator?_inj hop (heq ▸ hop'))
      simp [hflush, himplied, hd, hops]
  · rw [hflush, if_neg]
    rintro ⟨rfl, -⟩
    cases hop
  · rw [if_neg]
    · simp [himplied, Token.literal_ne_of_operator? hop]
    · rintro ⟨rfl, -⟩
      cases hop
  · rw [himplied, if_neg]
    rintro ⟨rfl, htop⟩
    rw [hinside (.inl (by simp [hop]))] at htop
    cases htop

/-- The operators among the tokens are those without a mark. -/
theorem count_scan (hop : Token.operator? c = some op) (hne : op ≠ .sibling) (s : Scanner)
    (t : Text) : ((s.scan (stripComments t)).map Lexeme.token).count op =
      countUnmarked c t (coverMarks s.depth t) := by
  generalize hd : s.depth = d
  fun_induction coverMarks d t generalizing s with
  | case1 =>
    rw [stripComments, scan, count_flush hop]
    rfl
  | case2 d e rest rest' h ih =>
    rw [stripComments_of_some h, countUnmarked_replicate (suffix_afterLeadingComment h), ih s hd]
  | case3 d e rest h ih =>
    rw [stripComments_of_none h, scan, List.map_append, List.count_append, count_step hop hne,
      ih _ ((depth_step s e).trans (congrArg (Depth.after · e) hd)), countUnmarked_cons, hd,
      Nat.add_comm]
    congr 1
    by_cases he : e = c
    · subst he
      simp [Depth.after_operator hop]
    · simp [he]

end Scanner

theorem count_tokenize {c : Char} {op : Token} (hop : Token.operator? c = some op)
    (hne : op ≠ .sibling) (t : Text) :
    (tokenize (stripComments t)).count op = countUnmarked c t (coverMarks {} t) :=
  Scanner.count_scan hop hne {} t

/-- How often `c` is passed over in a line where the scanner sees an operator. -/
def passedOver (c : Char) (line : Text) : Nat :=
  (line.zip ((spanMarks false line).zip (coverMarks {} line))).count (c, true, false)

/-- How often `c` is counted in a line where the scanner sees a text or a comment. -/
def countedText (c : Char) (line : Text) : Nat :=
  (line.zip ((spanMarks false line).zip (coverMarks {} line))).count (c, false, true)

/-- **The operators of a line are counted as the scanner sees them** exactly if as many are passed
over as are counted where there is none. -/
theorem countOutsideSpans_eq_iff {c : Char} {op : Token} (hop : Token.operator? c = some op)
    (hne : op ≠ .sibling) (line : Text) :
    let tokens := (tokenize (stripComments line)).count op
    countOutsideSpans line [c] + passedOver c line = tokens + countedText c line ∧
      (countOutsideSpans line [c] = tokens ↔ passedOver c line = countedText c line) := by
  intro tokens
  have hsum : countOutsideSpans line [c] + passedOver c line = tokens + countedText c line := by
    have hcount : countOutsideSpans line [c] = countUnmarked c line (spanMarks false line) := by
      rw [countOutsideSpans, Text.occurrences_singleton, count_withoutSpans]
    have htokens : tokens = countUnmarked c line (coverMarks {} line) :=
      count_tokenize hop hne line
    rw [hcount, htokens]
    exact countUnmarked_add c (length_spanMarks false line) (length_coverMarks {} line)
  exact ⟨hsum, by omega⟩

/-- `a[title="x>y"]>b{c^d}^e`: both counts pass over what is in quotes and in braces -/
theorem countOutsideSpans_quoted :
    let line := "a[title=\"x>y\"]>b\x7bc^d\x7d^e".toList
    countOutsideSpans line ['>'] = (tokenize (stripComments line)).count .nest ∧
      countOutsideSpans line ['^'] = (tokenize (stripComments line)).count .climb :=
  ⟨(countOutsideSpans_eq_iff rfl (by decide) _).2.2 (by decide +kernel),
    (countOutsideSpans_eq_iff rfl (by decide) _).2.2 (by decide +kernel)⟩

/-- `p{a{b}>c}`, `a[t=x>y]`, `a'>'b`: the count knows no inner braces and no brackets, and the
scanner knows no quotes -/
theorem countOutsideSpans_inside :
    let tokens (line : Text) := (tokenize (stripComments line)).count .nest
    let braces := "p\x7ba\x7bb\x7d>c\x7d".toList
    let brackets := "a[t=x>y]".toList
    let quotes := "a'>'b".toList
    (countOutsideSpans braces ['>'] = 1 ∧ tokens braces = 0) ∧
      (countOutsideSpans brackets ['>'] = 1 ∧ tokens brackets = 0) ∧
      countOutsideSpans quotes ['>'] = 0 ∧ tokens quotes = 1 := by
  decide +kernel

/-! ## Flat lines -/

/-- What stands in brackets: outside of quotes no brackets, braces, `>` or `^`; no backslashes, and
no brackets in quotes. -/
inductive FlatItems : Text → Prop
  | nil : FlatItems []
  | plain {c : Char} {rest : Text} (hc : c ∉ "\"'\x7b\x7d[]\\>^".toList) :
    FlatItems rest → FlatItems (c :: rest)
  | quoted {quote : Char} {inner rest : Text} (hquote : quote ∈ "\"'".toList)
    (hinner : ∀ c ∈ inner, c ≠ quote ∧ c ∉ "[]\\".toList) :
    FlatItems rest → FlatItems (quote :: (inner ++ quote :: rest))

/-- A line without backslashes, with quotes only in braces and brackets, and with no braces or
brackets in one another. -/
inductive FlatLine : Text → Prop
  | nil : FlatLine []
  | plain {c : Char} {rest : Text} (hc : c ∉ "\"'\x7b\x7d[]\\".toList) :
    FlatLine rest → FlatLine (c :: rest)
  | braces {inner rest : Text} (hinner : ∀ c ∈ inner, c ∉ "\x7b\x7d\\".toList) :
    FlatLine rest → FlatLine ('{' :: (inner ++ '}' :: rest))
  | brackets {inner rest : Text} (hinner : FlatItems inner) :
    FlatLine rest → FlatLine ('[' :: (inner ++ ']' :: rest))

/-- A span reaches to the next closing character. -/
theorem afterSpan_append {close : Char} (hclose : close ≠ '\\') {inner : Text}
    (h : ∀ c ∈ inner, c ≠ close ∧ c ≠ '\\') (rest : Text) :
    afterSpan close (inner ++ close :: rest) = some rest := by
  induction inner with
  | nil =>
    rw [List.nil_append, afterSpan, if_pos rfl]
    all_goals simp [hclose]
  | cons c inner ih =>
    obtain ⟨hc, hescape⟩ := h c List.mem_cons_self
    rw [List.cons_append, afterSpan, if_neg hc, ih fun d hd => h d (List.mem_cons_of_mem _ hd)]
    all_goals simp [hescape]

theorem withoutSpans_span {first close : Char} {t rest : Text}
    (hspan : spanCloser? first = some close) (hafter : afterSpan close t = some rest) :
    withoutSpans false (first :: t) = withoutSpans false rest :=
  withoutSpans_of_some (by simp [hspan, hafter])

theorem withoutSpans_plain {c : Char} (hc : c ∉ "\"'\x7b\\".toList) (rest : Text) :
    withoutSpans false (c :: rest) = c :: withoutSpans false rest := by
  obtain ⟨hdouble, hsingle, hbrace, hescape⟩ : c ≠ '"' ∧ c ≠ '\'' ∧ c ≠ '{' ∧ c ≠ '\\' := by
    simpa using hc
  rw [withoutSpans_of_none, beq_false_of_ne hescape]
  simp [spanCloser?, hdouble, hsingle, hbrace]

theorem Depth.after_of_not_mem {c : Char} (h : c ∉ "\x7b\x7d[]".toList) (d : Depth) :
    d.after c = d := by
  unfold Depth.after
  split <;> simp_all

namespace FlatItems

variable {inner : Text}

/-- Between brackets nothing is counted. -/
theorem count_withoutSpans_append (h : FlatItems inner) {c : Char} (hc : c ∈ ">^".toList)
    (rest : Text) :
    (withoutSpans false (inner ++ rest)).count c = (withoutSpans false rest).count c := by
  induction h with
  | nil => rfl
  | @plain d inner hd _ ih =>
    have hplain : d ∉ "\"'\x7b\\".toList := by
      simp only [String.reduceToList, List.mem_cons, not_or] at hd ⊢
      tauto
    have hne : d ≠ c := by
      rintro rfl
      simp only [String.reduceToList, List.mem_cons, not_or] at hd hc
      tauto
    rw [List.cons_append, withoutSpans_plain hplain, List.count_cons_of_ne hne, ih]
  | @quoted quote text inner hquote htext _ ih =>
    have hspan : spanCloser? quote = some quote ∧ quote ≠ '\\' := by
      obtain rfl | rfl : quote = '"' ∨ quote = '\'' := by simpa using hquote
      all_goals decide
    have hafter := afterSpan_append hspan.2 (fun d hd => ⟨(htext d hd).1, ?_⟩) (inner ++ rest)
    · rw [List.cons_append, List.append_assoc, List.cons_append, withoutSpans_span hspan.1 hafter,
        ih]
    · rintro rfl
      exact (htext _ hd).2 (by decide)

theorem not_mem_of_bracket (h : FlatItems inner) {d : Char} (hd : d ∈ "[]".toList) :
    d ∉ inner := by
  have hbracket : d = '[' ∨ d = ']' := by simpa using hd
  induction h with
  | nil => exact List.not_mem_nil
  | @plain c inner hc _ ih =>
    rw [List.mem_cons, not_or]
    refine ⟨?_, ih⟩
    rintro rfl
    rcases hbracket with rfl | rfl <;> exact hc (by decide)
  | @quoted quote text inner hquote htext _ ih =>
    have hne : d ≠ quote := by
      rintro rfl
      rcases hbracket with rfl | rfl <;> exact absurd hquote (by decide)
    have hmem : d ∉ text := by
      intro hmem
      rcases hbracket with rfl | rfl <;> exact (htext _ hmem).2 (by decide)
    simp [hne, hmem, ih]

end FlatItems

namespace Scanner

variable {c : Char} {op : Token} {s : Scanner}

/-- Where `c` only stands below the top level it is no operator. -/
theorem count_completed_eq_zero (hop : Token.operator? c = some op) (hne : op ≠ .sibling) {t : Text}
    (h : ∀ before behind, t = before ++ c :: behind →
      (before.foldl Depth.after s.depth).isTop = false) :
    ((s.completed t).map Lexeme.token).count op = 0 := by
  induction t generalizing s with
  | nil => rfl
  | cons d t ih =>
    rw [completed, List.map_append, List.count_append, count_step hop hne, if_neg, ih]
    · intro before behind ht
      rw [depth_step]
      exact h (d :: before) behind (by rw [ht, List.cons_append])
    · rintro ⟨rfl, htop⟩
      rw [← Bool.not_eq_false, ← h [] t rfl] at htop
      exact htop rfl

/-- No operator is in a region, and it leads back to the top level. -/
theorem count_scan_region (hop : Token.operator? c = some op) (hne : op ≠ .sibling)
    (hs : s.depth = {}) {first last : Char} {inner : Text} {d : Depth} (hfirst : first ≠ c)
    (hopen : Depth.after {} first = d) (hd : d.isTop = false) (hclose : d.after last = {})
    (hinner : ∀ e ∈ inner, d.after e = d) (rest : Text) : ∃ s' : Scanner, s'.depth = {} ∧
      ((s.scan (first :: (inner ++ last :: rest))).map Lexeme.token).count op =
        ((s'.scan rest).map Lexeme.token).count op := by
  have hfront : ∀ p, p <+: inner → (first :: p).foldl Depth.after s.depth = d := by
    intro p hp
    rw [hs, List.foldl_cons, hopen, Depth.foldl_after_eq_self fun e he => hinner e (hp.subset he)]
  have hsplit : first :: (inner ++ last :: rest) = (first :: inner ++ [last]) ++ rest := by simp
  refine ⟨s.after (first :: inner ++ [last]), ?_, ?_⟩
  · rw [depth_after_eq_foldl, List.foldl_append, hfront inner List.prefix_rfl]
    exact hclose
  rw [hsplit, scan_append, List.map_append, List.count_append, count_completed_eq_zero hop hne,
    Nat.zero_add]
  intro before behind hbefore
  cases before with
  | nil => exact absurd (List.cons.inj hbefore).1 hfirst
  | cons e before =>
    obtain ⟨rfl, htail⟩ : first = e ∧ inner ++ [last] = before ++ c :: behind :=
      List.cons.inj hbefore
    rw [hfront before, hd]
    obtain ⟨rfl, -⟩ | ⟨rest', -, rfl⟩ := concat_eq_append_cons htail
    · exact List.prefix_rfl
    · exact List.prefix_append _ _

end Scanner

/-- The count of a line is that of the tokens, from wherever the scanner is at the top level. -/
def CountedAlike (c : Char) (op : Token) (t : Text) : Prop :=
  ∀ s : Scanner, s.depth = {} →
    ((s.scan t).map Lexeme.token).count op = (withoutSpans false t).count c

namespace CountedAlike

variable {c d : Char} {op : Token} {inner rest : Text}

theorem nil (hop : Token.operator? c = some op) : CountedAlike c op [] := by
  intro s _
  rw [Scanner.scan, Scanner.count_flush hop, withoutSpans]
  rfl

theorem plain (hop : Token.operator? c = some op) (hne : op ≠ .sibling)
    (hd : d ∉ "\"'\x7b\x7d[]\\".toList) (h : CountedAlike c op rest) :
    CountedAlike c op (d :: rest) := by
  intro s hs
  have hspan : d ∉ "\"'\x7b\\".toList := by
    simp only [String.reduceToList, List.mem_cons, not_or] at hd ⊢
    tauto
  have hbrace : d ∉ "\x7b\x7d[]".toList := by
    simp only [String.reduceToList, List.mem_cons, not_or] at hd ⊢
    tauto
  have hdepth : (s.step d).2.depth = {} := by
    rw [Scanner.depth_step, Depth.after_of_not_mem hbrace, hs]
  rw [Scanner.scan, List.map_append, List.count_append, Scanner.count_step hop hne, h _ hdepth,
    withoutSpans_plain hspan, List.count_cons, hs, Nat.add_comm]
  simp [Depth.isTop]

theorem braces (hop : Token.operator? c = some op) (hne : op ≠ .sibling)
    (hinner : ∀ e ∈ inner, e ∉ "\x7b\x7d\\".toList) (h : CountedAlike c op rest) :
    CountedAlike c op ('{' :: (inner ++ '}' :: rest)) := by
  intro s hs
  have hfirst : '{' ≠ c := by
    rintro rfl
    cases hop
  have hchars : ∀ e ∈ inner, e ≠ '{' ∧ e ≠ '}' ∧ e ≠ '\\' := fun e he => by
    simpa using hinner e he
  have hdepth : ∀ e ∈ inner, Depth.after ⟨1, 0⟩ e = ⟨1, 0⟩ := fun e he =>
    Depth.after_in_braces (hchars e he).1 (hchars e he).2.1
  have hspan : ∀ e ∈ inner, e ≠ '}' ∧ e ≠ '\\' := fun e he => (hchars e he).2
  obtain ⟨s', hs', hcount⟩ := Scanner.count_scan_region hop hne hs hfirst rfl rfl
    (show Depth.after ⟨1, 0⟩ '}' = {} from rfl) hdepth rest
  rw [hcount, h s' hs', withoutSpans_span rfl (afterSpan_append (by decide) hspan rest)]

theorem brackets (hop : Token.operator? c = some op) (hne : op ≠ .sibling) (hc : c ∈ ">^".toList)
    (hinner : FlatItems inner) (h : CountedAlike c op rest) :
    CountedAlike c op ('[' :: (inner ++ ']' :: rest)) := by
  intro s hs
  have hfirst : '[' ≠ c ∧ ']' ≠ c := by
    refine ⟨?_, ?_⟩ <;> rintro rfl <;> cases hop
  have hdepth : ∀ e ∈ inner, Depth.after ⟨0, 1⟩ e = ⟨0, 1⟩ := by
    intro e he
    exact Depth.after_in_brackets
      (ne_of_mem_of_not_mem he (hinner.not_mem_of_bracket (by decide)))
      (ne_of_mem_of_not_mem he (hinner.not_mem_of_bracket (by decide)))
  obtain ⟨s', hs', hcount⟩ := Scanner.count_scan_region hop hne hs hfirst.1 rfl rfl
    (show Depth.after ⟨0, 1⟩ ']' = {} from rfl) hdepth rest
  rw [hcount, h s' hs', withoutSpans_plain (by decide), List.count_cons_of_ne hfirst.1,
    hinner.count_withoutSpans_append hc, withoutSpans_plain (by decide),
    List.count_cons_of_ne hfirst.2]

end CountedAlike

/-- **In a flat line the operators are counted as the scanner sees them.** -/
theorem FlatLine.countOutsideSpans_eq {c : Char} {op : Token}
    (hop : (c, op) ∈ [('>', .nest), ('^', .climb)]) {line : Text} (h : FlatLine line)
    (hcomment : NoComment line) :
    countOutsideSpans line [c] = (tokenize (stripComments line)).count op := by
  obtain ⟨hc, hchar, hne⟩ : Token.operator? c = some op ∧ c ∈ ">^".toList ∧ op ≠ .sibling := by
    simp only [List.mem_cons, List.not_mem_nil, or_false, Prod.mk.injEq] at hop
    rcases hop with ⟨rfl, rfl⟩ | ⟨rfl, rfl⟩ <;> decide
  have hcounts : CountedAlike c op line := by
    clear hcomment
    induction h with
    | nil => exact .nil hc
    | plain hd _ ih => exact ih.plain hc hne hd
    | braces hinner _ ih => exact ih.braces hc hne hinner
    | brackets hinner _ ih => exact ih.brackets hc hne hchar hinner
  rw [stripComments_eq_self.2 hcomment, countOutsideSpans, Text.occurrences_singleton]
  exact (hcounts {} rfl).symm

end Shorthand
