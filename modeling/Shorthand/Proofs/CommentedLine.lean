import Shorthand.Proofs.BlankLines
import Shorthand.Proofs.Closing
import Shorthand.Proofs.Literals

/-!
# Comments behind lines

In indented writing, the lines are joined before comments are stripped. The `>` that ends a comment
is counted with the operators of its line, so the next line is joined to a level one greater.

- `PlainLine`, `Comment`: a line of plain nodes joined by operators, and a comment of words.
- `PlainSource`: plain lines with one picked out, behind which a comment may stand.
- `levelAfter_comment`: what the comment does to the level.
- `PlainSource.sourceTokens_comment`: the tokens of the source with the comment.
- `Expansion.exists_run_joining`: what one level more does to an expansion.
- `Compiler.expand_comment`: when the comment makes no difference.
-/

namespace Shorthand

/-! ## Lines and comments -/

/-- A character of a line: one of a plain node, an operator, a parenthesis, `*`, or one that
indents. -/
def isLineChar (c : Char) : Bool :=
  isNodeChar c || "+>^()*\t ".toList.contains c

/-- A line of plain nodes joined by operators, behind some tabs and spaces. Without nodes it is
blank. -/
structure PlainLine where
  indent : Text
  body : Text
  all_indent : indent.all (fun c => c == '\t' || c == ' ') = true
  all_body : body.all (fun c => isLineChar c && !isBlank c) = true

def PlainLine.text (line : PlainLine) : Text :=
  line.indent ++ line.body

/-- A character of a comment. -/
def isCommentChar (c : Char) : Bool :=
  isWordChar c || "<!-> ".toList.contains c

/-- A comment of words and spaces. -/
structure Comment where
  words : Text
  all_words : words.all (fun c => isWordChar c || c == ' ') = true

def Comment.text (comment : Comment) : Text :=
  "<!--".toList ++ (comment.words ++ "-->".toList)

theorem not_mem_of_all {p : Char → Bool} {t : Text} (h : t.all p = true) {c : Char}
    (hc : p c = false) : c ∉ t := by
  intro hmem
  rw [List.all_eq_true.1 h c hmem] at hc
  cases hc

namespace PlainLine

variable (line : PlainLine) {c : Char}

theorem indent_isBlank (h : c ∈ line.indent) : isBlank c = true := by
  have hc : c = '\t' ∨ c = ' ' := by simpa using List.all_eq_true.1 line.all_indent c h
  rcases hc with rfl | rfl <;> decide

theorem body_not_isBlank (h : c ∈ line.body) : isBlank c = false := by
  have hc := List.all_eq_true.1 line.all_body c h
  simp only [Bool.and_eq_true, Bool.not_eq_true'] at hc
  exact hc.2

theorem all_text : line.text.all isLineChar = true := by
  rw [text, List.all_append, Bool.and_eq_true, List.all_eq_true, List.all_eq_true]
  refine ⟨fun c hc => ?_, fun c hc => ?_⟩
  · have hc : c = '\t' ∨ c = ' ' := by simpa using List.all_eq_true.1 line.all_indent c hc
    rcases hc with rfl | rfl <;> decide
  · have hc := List.all_eq_true.1 line.all_body c hc
    rw [Bool.and_eq_true] at hc
    exact hc.1

/-- A line is blank when it has no nodes. -/
theorem all_isBlank : line.text.all isBlank = line.body.isEmpty := by
  have hindent : line.indent.all isBlank = true :=
    List.all_eq_true.2 fun c hc => line.indent_isBlank hc
  rw [text, List.all_append, hindent, Bool.true_and]
  cases hbody : line.body with
  | nil => rfl
  | cons c rest => simp [line.body_not_isBlank (c := c) (by simp [hbody])]

end PlainLine

namespace Comment

variable (comment : Comment) {c : Char}

theorem all_text : comment.text.all isCommentChar = true := by
  have hwords : comment.words.all isCommentChar = true := by
    refine List.all_eq_true.2 fun c hc => ?_
    have := List.all_eq_true.1 comment.all_words c hc
    rw [Bool.or_eq_true] at this
    rcases this with h | h
    · simp [isCommentChar, h]
    · obtain rfl : c = ' ' := by simpa using h
      decide
  rw [text, List.all_append, List.all_append, hwords]
  decide

/-- The words of a comment count for nothing else. -/
theorem count_text (hword : isWordChar c = false) (hspace : c ≠ ' ') :
    comment.text.count c = "<!---->".toList.count c := by
  have hwords : comment.words.count c = 0 :=
    List.count_eq_zero.2 (not_mem_of_all comment.all_words (by simp [hword, hspace]))
  rw [text, List.count_append, List.count_append, hwords, Nat.zero_add, ← List.count_append]
  rfl

end Comment

/-! ## Reading a line with a comment -/

/-- The level of a line is that of what stands before a character that indents nothing. -/
theorem indentLevel_append_cons (wide : Bool) (t : Text) {c : Char} (htab : c ≠ '\t')
    (hspace : c ≠ ' ') (u : Text) : indentLevel wide (t ++ c :: u) = indentLevel wide t := by
  fun_induction indentLevel wide t with
  | case1 wide rest ih => simp [indentLevel, ih]
  | case2 rest ih => simp [indentLevel, ih]
  | case3 rest ih => simp [indentLevel, ih]
  | case4 t wide htabs hwide hnarrow =>
    -- no unit of indentation begins in the text, and none reaches into what stands behind it
    unfold indentLevel
    split
    · rename_i heq
      rcases t with _ | ⟨a, t⟩ <;> simp_all
    · rename_i heq
      rcases t with _ | ⟨a, _ | ⟨b, _ | ⟨d, _ | ⟨e, t⟩⟩⟩⟩ <;> simp_all
    · rename_i heq
      rcases t with _ | ⟨a, _ | ⟨b, t⟩⟩ <;> simp_all
    · rfl

theorem countOutsideSpans_singleton {t : Text} (hdouble : '"' ∉ t) (hsingle : '\'' ∉ t)
    (hbrace : '{' ∉ t) (c : Char) : countOutsideSpans t [c] = t.count c := by
  have hspans : ∀ d ∈ t, spanCloser? d = none := by
    intro d hd
    have hne : ∀ {e}, e ∉ t → d ≠ e := fun he heq => he (heq ▸ hd)
    rw [spanCloser?, if_neg (hne hdouble), if_neg (hne hsingle), if_neg (hne hbrace)]
  rw [countOutsideSpans, withoutSpans_eq_self hspans, Text.occurrences_singleton]

section CommentedLine

variable (line : PlainLine) (comment : Comment)

theorem not_mem_commented {c : Char} (hline : isLineChar c = false)
    (hcomment : isCommentChar c = false) : c ∉ line.text ++ comment.text := by
  rw [List.mem_append, not_or]
  exact ⟨not_mem_of_all line.all_text hline, not_mem_of_all comment.all_text hcomment⟩

theorem indentLevel_comment (hbody : line.body ≠ []) (wide : Bool) :
    indentLevel wide (line.text ++ comment.text) = indentLevel wide line.text := by
  obtain ⟨c, rest, hcons⟩ := List.exists_cons_of_ne_nil hbody
  have hblank := line.body_not_isBlank (c := c) (by simp [hcons])
  have htab : c ≠ '\t' := by rintro rfl; exact absurd hblank (by decide)
  have hspace : c ≠ ' ' := by rintro rfl; exact absurd hblank (by decide)
  rw [PlainLine.text, hcons, List.append_assoc, List.cons_append,
    indentLevel_append_cons wide _ htab hspace, indentLevel_append_cons wide _ htab hspace]

/-- A comment raises the level that the next line is compared with: the last character of its end
mark counts. -/
theorem levelAfter_comment (hbody : line.body ≠ []) (wide : Bool) :
    levelAfter wide (line.text ++ comment.text) = levelAfter wide line.text + 1 := by
  have hplain : ∀ c, countOutsideSpans line.text [c] = line.text.count c :=
    countOutsideSpans_singleton (not_mem_of_all line.all_text (by decide))
      (not_mem_of_all line.all_text (by decide)) (not_mem_of_all line.all_text (by decide))
  have hcommented : ∀ c, countOutsideSpans (line.text ++ comment.text) [c] =
      line.text.count c + comment.text.count c := fun c => by
    rw [countOutsideSpans_singleton (not_mem_commented line comment (by decide) (by decide))
      (not_mem_commented line comment (by decide) (by decide))
      (not_mem_commented line comment (by decide) (by decide)), List.count_append]
  have hnest : comment.text.count '>' = 1 := comment.count_text (by decide) (by decide)
  have hclimb : comment.text.count '^' = 0 := comment.count_text (by decide) (by decide)
  rw [levelAfter, levelAfter, hplain, hplain, hcommented, hcommented, hnest, hclimb,
    indentLevel_comment line comment hbody]
  omega

theorem trim_commented (hbody : line.body ≠ []) :
    Text.trim isBlank (line.text ++ comment.text) =
      Text.trim isBlank line.text ++ comment.text := by
  have hindent : ∀ c ∈ line.indent, isBlank c = true := fun c hc => line.indent_isBlank hc
  have hhead : ∀ c ∈ line.body.head?, isBlank c = false := fun c hc =>
    line.body_not_isBlank (List.mem_of_mem_head? hc)
  have hplain : Text.trim isBlank (line.indent ++ line.body ++ []) = line.body :=
    Text.trim_append hindent hbody hhead
      (fun c hc => line.body_not_isBlank (List.mem_of_getLast? hc)) (fun c hc => by cases hc)
  have hcommented : Text.trim isBlank (line.indent ++ (line.body ++ comment.text) ++ []) =
      line.body ++ comment.text := by
    refine Text.trim_append hindent (by simp [hbody]) ?_ (fun c hc => ?_) (fun c hc => by cases hc)
    · rwa [List.head?_append_of_ne_nil _ hbody]
    · have hlast : comment.text = ("<!--".toList ++ comment.words ++ "--".toList) ++ ['>'] := by
        simp [Comment.text]
      rw [hlast, ← List.append_assoc, List.getLast?_concat] at hc
      obtain rfl : '>' = c := by simpa using hc
      decide
  rw [List.append_nil] at hplain hcommented
  rw [PlainLine.text, List.append_assoc, hcommented, hplain]

/-- A comment behind the nodes of a line does not choose the units. -/
theorem startsWithOneSpace_comment (hbody : line.body ≠ []) :
    startsWithOneSpace (line.text ++ comment.text) = startsWithOneSpace line.text := by
  obtain ⟨c, rest, hcons⟩ := List.exists_cons_of_ne_nil hbody
  have hblank := line.body_not_isBlank (c := c) (by simp [hcons])
  have hspace : c ≠ ' ' := by rintro rfl; exact absurd hblank (by decide)
  rw [PlainLine.text, hcons, List.append_assoc, List.cons_append]
  unfold startsWithOneSpace
  match line.indent with
  | [] => simp [hspace]
  | [a] => by_cases ha : a = ' ' <;> simp [ha]
  | a :: b :: indent => by_cases ha : a = ' ' <;> simp [ha]

end CommentedLine

/-! ## Stripping the comment -/

theorem stripComments_append {x : Text} (h : '<' ∉ x) (y : Text) :
    stripComments (x ++ y) = x ++ stripComments y := by
  induction x with
  | nil => rfl
  | cons c x ih =>
    simp only [List.mem_cons, not_or] at h
    have hnone : afterLeadingComment (c :: (x ++ y)) = none := by
      unfold afterLeadingComment
      split
      · rename_i heq
        exact absurd (List.cons.inj heq).1.symm h.1
      · rfl
    rw [List.cons_append, stripComments_of_none hnone, ih h.2, List.cons_append]

theorem afterComment_words {words : Text} (h : '-' ∉ words) (y : Text) :
    afterComment (words ++ '-' :: '-' :: '>' :: y) = some y := by
  induction words with
  | nil => rfl
  | cons c words ih =>
    simp only [List.mem_cons, not_or] at h
    rw [List.cons_append, afterComment]
    · exact ih h.2
    · rintro rest rfl
      exact absurd rfl h.1

theorem stripComments_comment (comment : Comment) (y : Text) :
    stripComments (comment.text ++ y) = stripComments y := by
  have hdash : '-' ∉ comment.words := not_mem_of_all comment.all_words (by decide)
  have hafter : afterLeadingComment (comment.text ++ y) = some y := by
    refine Eq.trans ?_ (afterComment_words hdash y)
    simp [Comment.text, afterLeadingComment]
  exact stripComments_of_some hafter

/-! ## A source of plain lines -/

/-- Plain lines, of which one that is not blank is picked out. -/
structure PlainSource where
  front : List PlainLine
  line : PlainLine
  back : List PlainLine
  body_ne_nil : line.body ≠ []

namespace PlainSource

variable (s : PlainSource)

/-- The lines with a text behind the one picked out. -/
def lines (trailer : Text) : List Text :=
  s.front.map PlainLine.text ++ (s.line.text ++ trailer) :: s.back.map PlainLine.text

/-- The text of the lines with a text behind the one picked out. -/
def text (trailer : Text) : Text :=
  List.intercalate ['\n'] (s.lines trailer)

def wide : Bool :=
  usesWideUnits (s.lines [])

/-- The lines up to the one picked out as one line. -/
def before : Text :=
  joinLines s.wide (-1) (s.front.map PlainLine.text ++ [s.line.text])

/-- The level that the next line is compared with. -/
def reached : Int :=
  levelAfter s.wide s.line.text

/-- The lines behind the one picked out as one line, joined to the level `reached`. -/
def behind (reached : Int) : Text :=
  joinLines s.wide reached (s.back.map PlainLine.text)

/-- The level of the next line that is not blank. -/
def nextLevel : Option Nat :=
  (s.back.find? fun line => !line.body.isEmpty).map fun line => indentLevel s.wide line.text

theorem splitOn_text {trailer : Text} (h : '\n' ∉ trailer) :
    (s.text trailer).splitOn '\n' = s.lines trailer := by
  refine List.splitOn_intercalate '\n' (fun line hline => ?_) (by simp [lines])
  have hplain : ∀ line : PlainLine, '\n' ∉ line.text := fun line =>
    not_mem_of_all line.all_text (by decide)
  simp only [lines, List.mem_append, List.mem_cons, List.mem_map] at hline
  rcases hline with ⟨line, -, rfl⟩ | rfl | ⟨line, -, rfl⟩
  · exact hplain line
  · exact List.not_mem_append (hplain s.line) h
  · exact hplain line

theorem usesWideUnits_comment (comment : Comment) :
    usesWideUnits (s.lines comment.text) = s.wide := by
  have hlines : (s.lines comment.text).map startsWithOneSpace =
      (s.lines []).map startsWithOneSpace := by
    simp [lines, startsWithOneSpace_comment s.line comment s.body_ne_nil]
  have hthird := congrArg (·[2]?) hlines
  simp only [List.getElem?_map] at hthird
  rw [wide, usesWideUnits_eq, usesWideUnits_eq]
  have hany : ∀ o : Option Text, o.any startsWithOneSpace = (o.map startsWithOneSpace).any id := by
    intro o
    cases o <;> rfl
  rw [hany, hthird, ← hany]

theorem line_kept : s.line.text.all isBlank = false := by
  rw [s.line.all_isBlank]
  simpa using s.body_ne_nil

theorem commented_kept (comment : Comment) :
    (s.line.text ++ comment.text).all isBlank = false := by
  rw [List.all_append, s.line_kept, Bool.false_and]

theorem inlineIndentation_text :
    inlineIndentation (s.text []) = s.before ++ s.behind s.reached := by
  obtain ⟨reached, hfront⟩ := exists_joinLines_append s.wide (-1) (s.front.map PlainLine.text)
  have hkept := s.line_kept
  have hwide : usesWideUnits (s.lines []) = s.wide := rfl
  rw [inlineIndentation]
  simp only [s.splitOn_text List.not_mem_nil, hwide]
  rw [lines, before, behind, hfront, hfront, List.append_nil, joinLines_kept hkept,
    joinLines_kept hkept, PlainSource.reached]
  simp [joinLines]

/-- The comment stands behind its line, and the lines behind are joined to a level one greater. -/
theorem inlineIndentation_comment (comment : Comment) :
    inlineIndentation (s.text comment.text) =
      s.before ++ (comment.text ++ s.behind (s.reached + 1)) := by
  obtain ⟨reached, hfront⟩ := exists_joinLines_append s.wide (-1) (s.front.map PlainLine.text)
  have hnewline : '\n' ∉ comment.text := not_mem_of_all comment.all_text (by decide)
  rw [inlineIndentation]
  simp only [s.splitOn_text hnewline, s.usesWideUnits_comment]
  rw [lines, before, behind, hfront, hfront, joinLines_kept (s.commented_kept comment),
    joinLines_kept s.line_kept, indentLevel_comment _ _ s.body_ne_nil,
    trim_commented _ _ s.body_ne_nil, levelAfter_comment _ _ s.body_ne_nil, PlainSource.reached]
  simp [joinLines]

theorem all_before : s.before.all isLineChar = true := by
  refine all_joinLines (by decide) (fun line hline => ?_) _ _
  simp only [List.mem_append, List.mem_map, List.mem_singleton] at hline
  rcases hline with ⟨line, -, rfl⟩ | rfl
  · exact line.all_text
  · exact s.line.all_text

theorem all_behind (reached : Int) : (s.behind reached).all isLineChar = true := by
  refine all_joinLines (by decide) (fun line hline => ?_) _ _
  obtain ⟨line, -, rfl⟩ := List.mem_map.1 hline
  exact line.all_text

theorem sourceTokens_text :
    sourceTokens true (s.text []) = tokenize (s.before ++ s.behind s.reached) := by
  have hno : NoComment (s.before ++ s.behind s.reached) := by
    refine NoComment.of_not_mem (List.not_mem_append ?_ ?_)
    · exact not_mem_of_all s.all_before (by decide)
    · exact not_mem_of_all (s.all_behind s.reached) (by decide)
  rw [sourceTokens, if_pos rfl, inlineIndentation_text, stripComments_eq_self.2 hno]

/-- The comment is stripped, but the lines behind it stay joined to the other level. -/
theorem sourceTokens_comment (comment : Comment) :
    sourceTokens true (s.text comment.text) = tokenize (s.before ++ s.behind (s.reached + 1)) := by
  have hbehind : '<' ∉ s.behind (s.reached + 1) := not_mem_of_all (s.all_behind _) (by decide)
  rw [sourceTokens, if_pos rfl, inlineIndentation_comment,
    stripComments_append (not_mem_of_all s.all_before (by decide)), stripComments_comment,
    stripComments_eq_self.2 (NoComment.of_not_mem hbehind)]

/-- The level that the lines behind are joined to shows only in front of the next line. -/
theorem exists_behind_eq :
    ∃ rest, ∀ reached, s.behind reached = s.nextLevel.elim [] (joint reached) ++ rest := by
  obtain ⟨rest, h⟩ := exists_joinLines_eq s.wide (s.back.map PlainLine.text)
  refine ⟨rest, fun reached => ?_⟩
  have hblank : (fun line : Text => !line.all isBlank) ∘ PlainLine.text =
      fun line => !line.body.isEmpty := funext fun line => by
    rw [Function.comp_apply, line.all_isBlank]
  rw [behind, h, List.find?_map, hblank, nextLevel]
  cases s.back.find? fun line => !line.body.isEmpty <;> rfl

/-- One level more changes no operator in front of a next line at `level`: both levels are negative,
or both are less. -/
def KeepsJoint (level : Nat) : Prop :=
  s.reached < -1 ∨ 0 ≤ s.reached ∧ s.reached + 1 < level

/-- One level more finds no tag to close in front of a next line at `level`: none is open, or a `+`
in place of `>` finds the last node closed. -/
def NothingToClose (level : Nat) (e : Expansion) : Prop :=
  e.openTags = [] ∨ level = s.reached + 1 ∧ e.openCount = 0

end PlainSource

/-! ## Tokens -/

/-- Without closing braces, the texts of the tokens make up the text. -/
theorem source_tokenize {t : Text} (h : '}' ∉ t) : source (tokenize t) = t := by
  have hcount : (lexemes t).countP (·.implied) = 0 := by
    rw [lexemes, Scanner.countP_implied_scan, List.countP_eq_zero]
    intro i _
    have hbrace : t[i - 1]? ≠ some '}' := fun hi => h (List.mem_of_getElem? hi)
    simp [Scanner.impliesSibling, hbrace]
  have hwritten : (lexemes t).filter (!·.implied) = lexemes t := by
    refine List.filter_eq_self.2 fun l hl => ?_
    simpa using List.countP_eq_zero.1 hcount l hl
  have htext : written (lexemes t) = t := Scanner.written_scan {} t
  rw [written, hwritten] at htext
  rw [source, tokenize, List.flatMap_map]
  exact htext

theorem Scanner.tokens_operators {ops : List Token} (h : ∀ op ∈ ops, op.isOperator = true)
    (u : Text) : tokens {} (source ops ++ u) = ops ++ tokens {} u := by
  induction ops with
  | nil => rfl
  | cons op ops ih =>
    obtain ⟨hop, hops⟩ := List.forall_mem_cons.1 h
    rw [source_cons, List.append_assoc, tokens_operator hop, ih hops]
    rfl

/-- Operators at the top level part the tokens of a text. -/
theorem tokenize_operators {a : Text} (hdepth : ∀ c ∈ a, Depth.after {} c = {}) (hbrace : '}' ∉ a)
    {ops : List Token} (hne : ops ≠ []) (h : ∀ op ∈ ops, op.isOperator = true) (u : Text) :
    tokenize (a ++ (source ops ++ u)) = tokenize a ++ (ops ++ tokenize u) := by
  obtain ⟨op, ops, rfl⟩ := List.exists_cons_of_ne_nil hne
  obtain ⟨hop, hops⟩ := List.forall_mem_cons.1 h
  obtain ⟨pending, hafter⟩ : ∃ pending, Scanner.after {} a = ⟨{}, pending, false⟩ := by
    refine ⟨(Scanner.after {} a).pending, (Scanner.after_eq a).trans ?_⟩
    have hlast : (a.getLast? == some '}') = false := by
      rw [beq_eq_false_iff_ne]
      exact fun hlast => hbrace (List.mem_of_getLast? hlast)
    rw [hlast, depthAfter, Depth.foldl_after_eq_self hdepth]
  have hbefore : tokenize a =
      (Scanner.completed {} a).map Lexeme.token ++ Scanner.flushed pending := by
    have h := Scanner.tokens_append {} a []
    rwa [hafter, Scanner.tokens_nil, List.append_nil] at h
  have hwhole := Scanner.tokens_append {} a (source (op :: ops) ++ u)
  rw [hafter, source_cons, List.append_assoc op.text, Scanner.tokens_operator hop,
    Scanner.tokens_operators hops] at hwhole
  rw [hbefore, source_cons, List.append_assoc op.text]
  refine hwhole.trans ?_
  simp [tokenize, lexemes, Scanner.tokens]

/-! ## One level more -/

namespace Expansion

/-- Closing tags changes nothing exactly when none is open, or none is to be closed. -/
theorem closeTags_eq_self_iff {n : Nat} {e : Expansion} :
    closeTags n e = e ↔ e.openTags = [] ∨ n = 0 := by
  rw [closeTags_eq]
  obtain ⟨result, openTags, groups, lastGroup⟩ := e
  constructor
  · intro h
    have hlength := congrArg List.length (congrArg Expansion.openTags h)
    rw [List.length_drop] at hlength
    rw [← List.length_eq_zero_iff]
    omega
  · rintro (h | h) <;> simp_all

variable (attributes : Table) (resolver : Resolver)

theorem exists_run_climb (e : Expansion) (n : Nat) :
    ∃ k, run attributes resolver e (List.replicate n .climb) = .ok (closeTags k e) := by
  induction n generalizing e with
  | zero => exact ⟨0, rfl⟩
  | succ n ih =>
    obtain ⟨k, hk⟩ := ih (closeTags (e.openCount + 1) e)
    refine ⟨e.openCount + 1 + k, ?_⟩
    rw [List.replicate_succ, run_cons, step_climb, ok_bind, hk, closeTags_add]

/-- From one level more, the operators to an element that is not deeper close tags behind those that
are closed anyway: one at least, or the last node's where `+` stands in place of `>`. -/
theorem exists_run_joining (e : Expansion) {n level : Nat} (h : level ≤ n + 1) : ∃ e' k,
    run attributes resolver e (joining (some n) level) = .ok e' ∧
      run attributes resolver e (joining (some (n + 1)) level) = .ok (closeTags k e') ∧
      (k = 0 ↔ level = n + 1 ∧ e'.openCount = 0) := by
  have hsibling : ∀ m, joining (some m) m = [.sibling] := fun m => by simp [joining]
  rcases Nat.lt_trichotomy level n with hlt | rfl | hgt
  · have hclimb : joining (some n) level = List.replicate (n - level) .climb := by
      rw [joining, if_neg (by omega), if_neg (by omega)]
    have hsucc : joining (some (n + 1)) level = joining (some n) level ++ [.climb] := by
      rw [hclimb, joining, if_neg (by omega), if_neg (by omega), Nat.succ_sub hlt.le,
        List.replicate_succ']
    obtain ⟨k, hk⟩ := exists_run_climb attributes resolver e (n - level)
    refine ⟨closeTags k e, (closeTags k e).openCount + 1, hclimb ▸ hk, ?_, by omega⟩
    rw [hsucc, run_append, hclimb, hk, ok_bind, run_singleton, step_climb]
  · have hclimb : joining (some (level + 1)) level = [.climb] := by simp [joining]
    refine ⟨closeTags e.openCount e, 1, ?_, ?_, by omega⟩
    · rw [hsibling, run_singleton, step_sibling]
    · rw [hclimb, run_singleton, step_climb, closeTags_add]
  · obtain rfl : level = n + 1 := by omega
    have hnest : joining (some n) (n + 1) = [.nest] := by simp [joining]
    refine ⟨e, e.openCount, by rw [hnest, run_singleton]; rfl, ?_, by simp⟩
    rw [hsibling, run_singleton, step_sibling]

end Expansion

/-! ## The output -/

theorem after_of_isLineChar {c : Char} (h : isLineChar c = true) : Depth.after {} c = {} := by
  unfold Depth.after
  split
  all_goals first | rfl | exact absurd h (by decide)

namespace PlainSource

variable (s : PlainSource)

/-- The tokens stay the same exactly when the operators in front of the next line do. -/
theorem sourceTokens_comment_iff (comment : Comment) :
    sourceTokens true (s.text comment.text) = sourceTokens true (s.text []) ↔
      ∀ level ∈ s.nextLevel, s.KeepsJoint level := by
  have hread : ∀ reached, source (tokenize (s.before ++ s.behind reached)) =
      s.before ++ s.behind reached := fun reached =>
    source_tokenize (List.not_mem_append (not_mem_of_all s.all_before (by decide))
      (not_mem_of_all (s.all_behind reached) (by decide)))
  have htexts : tokenize (s.before ++ s.behind (s.reached + 1)) =
      tokenize (s.before ++ s.behind s.reached) ↔
      s.behind (s.reached + 1) = s.behind s.reached := by
    refine ⟨fun h => ?_, fun h => by rw [h]⟩
    have h := congrArg source h
    rw [hread, hread] at h
    exact List.append_cancel_left h
  obtain ⟨rest, hbehind⟩ := s.exists_behind_eq
  rw [sourceTokens_comment, sourceTokens_text, htexts, hbehind, hbehind, List.append_left_inj]
  cases hnext : s.nextLevel with
  | none => simp
  | some level => simp [KeepsJoint, joint_add_one_iff]

/-- The lines up to the picked one leave the scanner at the top level. -/
theorem tokenize_before {ops : List Token} (hne : ops ≠ []) (h : ∀ op ∈ ops, op.isOperator = true)
    (u : Text) :
    tokenize (s.before ++ (source ops ++ u)) = tokenize s.before ++ (ops ++ tokenize u) :=
  tokenize_operators
    (fun c hc => after_of_isLineChar (List.all_eq_true.1 s.all_before c hc))
    (not_mem_of_all s.all_before (by decide)) hne h u

section Run

variable {attributes : Table} {resolver : Resolver} {level : Nat}

/-- The lines are expanded in three parts: those up to the picked one, the operators behind it, and
what follows. -/
theorem run_joint (n level : Nat) (rest : Text) :
    Expansion.run attributes resolver {} (tokenize (s.before ++ (joint n level ++ rest))) =
      Expansion.run attributes resolver {} (tokenize s.before) >>= fun start =>
        Expansion.run attributes resolver start (joining (some n) level) >>= fun e =>
          Expansion.run attributes resolver e (tokenize rest) := by
  have hjoint : joint n level = source (joining (some n) level) :=
    (source_joining (some n) level).symm
  rw [hjoint, s.tokenize_before (joining_ne_nil n level) fun op => isOperator_of_mem_joining,
    Expansion.run_append]
  refine bind_congr_ok fun start _ => ?_
  rw [Expansion.run_append]

theorem run_joint_nil (n level : Nat) :
    Expansion.run attributes resolver {} (tokenize (s.before ++ joint n level)) =
      Expansion.run attributes resolver {} (tokenize s.before) >>= fun start =>
        Expansion.run attributes resolver start (joining (some n) level) := by
  rw [← List.append_nil (joint n level), run_joint]
  refine bind_congr_ok fun start _ => ?_
  exact bind_pure _

/-- A level that is not negative is a number, and so is the next. -/
theorem exists_reached_eq (hpos : 0 ≤ s.reached) :
    ∃ n : Nat, s.reached = n ∧ s.reached + 1 = (n + 1 : Nat) := by
  obtain ⟨n, hn⟩ := Int.eq_ofNat_of_zero_le hpos
  exact ⟨n, hn, by omega⟩

theorem nothingToClose_iff {n : Nat} (hnext : s.reached + 1 = (n + 1 : Nat)) {e : Expansion} :
    s.NothingToClose level e ↔ e.openTags = [] ∨ level = n + 1 ∧ e.openCount = 0 := by
  rw [NothingToClose, hnext, Int.ofNat_inj]

/-- In front of a next line that is not deeper by two levels, the expansion is the same with the
comment exactly when there is nothing to close. -/
theorem run_comment_iff (hpos : 0 ≤ s.reached) (hlevel : level ≤ s.reached + 1) {e : Expansion}
    (he : Expansion.run attributes resolver {} (tokenize (s.before ++ joint s.reached level)) =
      .ok e) :
    Expansion.run attributes resolver {} (tokenize (s.before ++ joint (s.reached + 1) level)) =
      .ok e ↔ s.NothingToClose level e := by
  obtain ⟨n, hn, hnext⟩ := s.exists_reached_eq hpos
  rw [hn, run_joint_nil] at he
  obtain ⟨start, hstart, hrun⟩ := bind_eq_ok he
  obtain ⟨e', k, hjoining, hsucc, hk⟩ :=
    Expansion.exists_run_joining attributes resolver start (show level ≤ n + 1 by omega)
  obtain rfl : e' = e := Except.ok.inj (hjoining.symm.trans hrun)
  rw [hnext, run_joint_nil, hstart, ok_bind, hsucc, Except.ok.injEq,
    Expansion.closeTags_eq_self_iff, hk, s.nothingToClose_iff hnext]

/-- If there is nothing to close, what follows is expanded as without the comment. -/
theorem run_comment (hpos : 0 ≤ s.reached) (hlevel : level ≤ s.reached + 1)
    (hclose : ∀ e, Expansion.run attributes resolver {}
      (tokenize (s.before ++ joint s.reached level)) = .ok e → s.NothingToClose level e)
    (rest : Text) :
    Expansion.run attributes resolver {}
      (tokenize (s.before ++ (joint (s.reached + 1) level ++ rest))) =
    Expansion.run attributes resolver {}
      (tokenize (s.before ++ (joint s.reached level ++ rest))) := by
  obtain ⟨n, hn, hnext⟩ := s.exists_reached_eq hpos
  rw [hn, run_joint_nil] at hclose
  rw [hnext, hn, run_joint, run_joint]
  refine bind_congr_ok fun start hstart => ?_
  obtain ⟨e, k, hjoining, hsucc, hk⟩ :=
    Expansion.exists_run_joining attributes resolver start (show level ≤ n + 1 by omega)
  have hnothing := hclose e (by rw [hstart, ok_bind, hjoining])
  rw [s.nothingToClose_iff hnext, ← hk] at hnothing
  rw [hjoining, hsucc, Expansion.closeTags_eq_self_iff.2 hnothing]

end Run

end PlainSource

/-- **When a comment behind a line makes no difference.** It is stripped itself, but it raises the
level that the next line is joined to. The tokens stay the same exactly when the operators in front
of the next line do. Where these are others and the level is not negative, the expansion stays the
same exactly when they find nothing to close, and then so does the output. -/
theorem Compiler.expand_comment {c : Compiler} (hcache : c.cache = none)
    (hindented : c.indented = true) (call : Option Resolver) (o o' : Occasion) (files : FileTree)
    (s : PlainSource) (comment : Comment) :
    let plain := s.text []
    let commented := s.text comment.text
    let run := Expansion.run c.tables.attributes (c.resolverFor call) {}
    sourceTokens true plain = tokenize (s.before ++ s.behind s.reached) ∧
    sourceTokens true commented = tokenize (s.before ++ s.behind (s.reached + 1)) ∧
    (sourceTokens true commented = sourceTokens true plain ↔
      ∀ level ∈ s.nextLevel, s.KeepsJoint level) ∧
    (∀ level ∈ s.nextLevel, 0 ≤ s.reached → ¬ s.KeepsJoint level → ∀ e,
      run (tokenize (s.before ++ joint s.reached level)) = .ok e →
      (run (tokenize (s.before ++ joint (s.reached + 1) level)) = .ok e ↔
        s.NothingToClose level e)) ∧
    ((∀ level ∈ s.nextLevel, s.KeepsJoint level ∨ 0 ≤ s.reached ∧ ∀ e,
        run (tokenize (s.before ++ joint s.reached level)) = .ok e → s.NothingToClose level e) →
      (c.expand o files commented call).output = (c.expand o' files plain call).output) := by
  intro plain commented run
  have hsame := s.sourceTokens_comment_iff comment
  have hnear : ∀ {level}, 0 ≤ s.reached → ¬ s.KeepsJoint level → level ≤ s.reached + 1 := by
    intro level hpos hshift
    rw [PlainSource.KeepsJoint] at hshift
    omega
  refine ⟨s.sourceTokens_text, s.sourceTokens_comment comment, hsame,
    fun level _ hpos hshift e he => s.run_comment_iff hpos (hnear hpos hshift) he, fun h => ?_⟩
  rw [Compiler.output_expand hcache, Compiler.output_expand hcache, Compiler.render,
    Compiler.render, hindented]
  by_cases hkeeps : ∀ level ∈ s.nextLevel, s.KeepsJoint level
  · rw [hsame.2 hkeeps]
  · obtain ⟨level, hlevel, hshift⟩ : ∃ level, s.nextLevel = some level ∧ ¬ s.KeepsJoint level := by
      simpa using hkeeps
    obtain ⟨hpos, hclose⟩ := (h level hlevel).resolve_left hshift
    obtain ⟨rest, hbehind⟩ := s.exists_behind_eq
    rw [s.sourceTokens_text, s.sourceTokens_comment, hbehind, hbehind, hlevel, expandTokens,
      expandTokens]
    exact congrArg (· >>= fun e => pure e.finish)
      (s.run_comment hpos (hnear hpos hshift) hclose rest)

/-- A comment behind a line whose tags are all closed before the next line -/
theorem Compiler.expand_comment_closed :
    let s : PlainSource :=
      { front := [⟨[], "ul".toList, by decide, by decide⟩]
        line := ⟨"  ".toList, "li".toList, by decide, by decide⟩
        back := [⟨[], ['p'], by decide, by decide⟩]
        body_ne_nil := by decide }
    let comment : Comment := ⟨" x y ".toList, by decide⟩
    let c : Compiler := {}
    s.text comment.text = "ul\n  li<!-- x y -->\np".toList ∧ c.cache = none ∧ c.indented = true ∧
      (c.expand {} .nil (s.text comment.text)).output = (c.expand {} .nil (s.text [])).output := by
  intro s comment c
  obtain ⟨-, -, -, -, h⟩ := expand_comment (c := c) rfl rfl none {} {} .nil s comment
  refine ⟨by decide, rfl, rfl, h fun level hlevel => .inr ?_⟩
  have hnext : s.nextLevel = some 0 := by decide +kernel
  obtain rfl : 0 = level := by rw [hnext] at hlevel; exact Option.some.inj hlevel
  refine ⟨by decide +kernel, fun e he => ?_⟩
  have hrun : Expansion.run c.tables.attributes (c.resolverFor none) {}
      (tokenize (s.before ++ joint s.reached 0)) =
      .ok { result := ["<ul>", "<li>", "</li>", "</ul>"].map String.toList } := by
    decide +kernel
  rw [hrun] at he
  exact .inl (by rw [← Except.ok.inj he])

/-- A comment behind a line that the next one stands in -/
theorem Compiler.expand_comment_inner :
    let s : PlainSource :=
      { front := []
        line := ⟨[], ['a'], by decide, by decide⟩
        back := [⟨"  ".toList, ['b'], by decide, by decide⟩]
        body_ne_nil := by decide }
    let comment : Comment := ⟨['x'], by decide⟩
    let c : Compiler := {}
    s.text [] = "a\n  b".toList ∧ s.text comment.text = "a<!--x-->\n  b".toList ∧
      (c.expand {} .nil (s.text [])).output = .ok "<a><b></b></a>".toList ∧
      (c.expand {} .nil (s.text comment.text)).output = .ok "<a></a><b></b>".toList := by
  intro s comment c
  exact ⟨by decide, by decide, by decide +kernel, by decide +kernel⟩

end Shorthand
