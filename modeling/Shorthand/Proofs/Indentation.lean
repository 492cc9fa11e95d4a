import Shorthand.Indentation
import Shorthand.Proofs.Content
import Shorthand.Proofs.Forest
import Shorthand.Proofs.Source

/-!
# Indented writing

Lines of nodes, each indented by tabs or pairs of spaces, show a forest.

- `OutlineLine`: a line of nodes joined by `>`, or a blank line; `outlineText` is the text of lines.
- `outlineOf`: the nodes of the lines with their depths.
- `inlineIndentation_outlineText`: the text on one line, with the operators between the depths.
- `expand_outline`: the compiler's output for the text is the markup of the forest with these depths.
-/

namespace Shorthand

/-! ## Lines -/

/-- A character of a plain node: no operator, quote, brace, bracket, `*` or `<`, and not blank. -/
def isNodeChar (c : Char) : Bool :=
  isPlainChar c && !isBlank c && c != '"' && c != '\'' && c != '<'

/-- A node that consists of a tag, classes and an id, or of other such characters. -/
structure PlainNode where
  text : Text
  ne_nil : text ≠ []
  all_isNodeChar : text.all isNodeChar = true

theorem PlainNode.isNodeChar (node : PlainNode) {c : Char} (h : c ∈ node.text) :
    Shorthand.isNodeChar c = true :=
  List.all_eq_true.1 node.all_isNodeChar c h

/-- One level of indentation. -/
inductive IndentUnit
  | tab
  | spaces
  deriving DecidableEq, Repr

def IndentUnit.text : IndentUnit → Text
  | tab => ['\t']
  | spaces => [' ', ' ']

/-- The text of nodes that stand behind a node, each inside the one before. -/
def chainText (nodes : List PlainNode) : Text :=
  nodes.flatMap fun node => '>' :: node.text

/-- A line of an outline. -/
inductive OutlineLine
  /-- A blank line of some spaces. A single one may choose wide units. -/
  | blank (spaces : Nat) (h : spaces ≠ 1)
  /-- Nodes joined by `>`, behind some units of indentation and before some spaces. -/
  | chain (indent : List IndentUnit) (first : PlainNode) (others : List PlainNode)
    (trailing : Nat)

def OutlineLine.text : OutlineLine → Text
  | blank spaces _ => List.replicate spaces ' '
  | chain indent first others trailing =>
    indent.flatMap IndentUnit.text ++ (first.text ++ chainText others) ++
      List.replicate trailing ' '

/-- The text of lines. -/
def outlineText (lines : List OutlineLine) : Text :=
  List.intercalate ['\n'] (lines.map OutlineLine.text)

/-- A line is at most one level deeper than the last node before it; `n` is the greatest level that
the first line may have. -/
def WellIndented : Nat → List OutlineLine → Prop
  | _, [] => True
  | n, .blank _ _ :: rest => WellIndented n rest
  | n, .chain indent _ others _ :: rest =>
    indent.length ≤ n ∧ WellIndented (indent.length + (others.length + 1)) rest

theorem PlainNode.brace_not_mem (node : PlainNode) : '{' ∉ node.text := fun h =>
  absurd (node.isNodeChar h) (by decide)

/-- A plain node is no bare text. -/
def PlainNode.element (node : PlainNode) : Element where
  text := node.text
  isText_eq := by simp [Node.isText, Node.content_parse node.brace_not_mem]

/-- The nodes of a line behind the first, from the depth `d` on. -/
def chainOutline (d : Nat) : List PlainNode → Outline
  | [] => []
  | node :: nodes => (d, node.element) :: chainOutline (d + 1) nodes

/-- The nodes of a line with their depths. -/
def OutlineLine.outline : OutlineLine → Outline
  | blank _ _ => []
  | chain indent first others _ =>
    (indent.length, first.element) :: chainOutline (indent.length + 1) others

/-- The nodes of lines with their depths. -/
def outlineOf (lines : List OutlineLine) : Outline :=
  lines.flatMap OutlineLine.outline

/-! ## Characters -/

theorem ne_of_isNodeChar {c d : Char} (hc : isNodeChar c = true) (hd : isNodeChar d = false) :
    c ≠ d := by
  rintro rfl
  rw [hd] at hc
  cases hc

theorem not_isBlank_of_isNodeChar {c : Char} (h : isNodeChar c = true) : isBlank c = false := by
  simp only [isNodeChar, Bool.and_eq_true, Bool.not_eq_true'] at h
  exact h.1.1.1.2

/-- A character of a line behind its indentation: of a node, or the operator between two nodes. -/
def IsBodyChar (c : Char) : Prop :=
  isNodeChar c = true ∨ c = '>'

theorem IsBodyChar.not_isBlank {c : Char} (h : IsBodyChar c) : isBlank c = false := by
  rcases h with h | rfl
  · exact not_isBlank_of_isNodeChar h
  · decide

theorem bodyChar_of_mem {first : PlainNode} {others : List PlainNode} {c : Char}
    (h : c ∈ first.text ++ chainText others) : IsBodyChar c := by
  simp only [chainText, List.mem_append, List.mem_flatMap, List.mem_cons] at h
  rcases h with h | ⟨node, -, rfl | h⟩
  · exact .inl (first.isNodeChar h)
  · exact .inr rfl
  · exact .inl (node.isNodeChar h)

theorem blank_of_mem_indent {indent : List IndentUnit} {c : Char}
    (h : c ∈ indent.flatMap IndentUnit.text) : c = '\t' ∨ c = ' ' := by
  obtain ⟨unit, -, h⟩ := List.mem_flatMap.1 h
  cases unit <;> simp_all [IndentUnit.text]

/-- The characters of a line. -/
theorem OutlineLine.char_of_mem {line : OutlineLine} {c : Char} (h : c ∈ line.text) :
    c = '\t' ∨ c = ' ' ∨ IsBodyChar c := by
  cases line with
  | blank spaces hs => exact .inr (.inl (List.mem_replicate.1 h).2)
  | chain indent first others trailing =>
    rcases List.mem_append.1 h with h | h
    · rcases List.mem_append.1 h with h | h
      · exact (blank_of_mem_indent h).imp id .inl
      · exact .inr (.inr (bodyChar_of_mem h))
    · exact .inr (.inl (List.mem_replicate.1 h).2)

/-! ## Reading a line -/

/-- A text between blanks is left when these are cut off. -/
theorem Text.trim_append {p : Char → Bool} {a b d : Text} (ha : ∀ c ∈ a, p c = true)
    (hne : b ≠ []) (hhead : ∀ c ∈ b.head?, p c = false) (hlast : ∀ c ∈ b.getLast?, p c = false)
    (hd : ∀ c ∈ d, p c = true) : Text.trim p (a ++ b ++ d) = b := by
  have hdrop : ∀ {t u : Text}, t ≠ [] → (∀ c ∈ t.head?, p c = false) →
      (t ++ u).dropWhile p = t ++ u := by
    intro t u hne ht
    obtain ⟨c, t, rfl⟩ := List.exists_cons_of_ne_nil hne
    simp [ht c rfl]
  rw [Text.trim, List.append_assoc, List.dropWhile_append_of_pos ha, hdrop hne hhead,
    List.reverse_append, List.dropWhile_append_of_pos fun c hc => hd c (List.mem_reverse.1 hc)]
  have hreverse := hdrop (u := []) (t := b.reverse) (by simpa using hne)
    fun c hc => hlast c (by simpa using hc)
  rw [List.append_nil] at hreverse
  rw [hreverse, List.reverse_reverse]

theorem indentLevel_append {indent : List IndentUnit} {rest : Text}
    (h : ∀ c ∈ rest.head?, c ≠ '\t' ∧ c ≠ ' ') :
    indentLevel false (indent.flatMap IndentUnit.text ++ rest) = indent.length := by
  induction indent with
  | nil =>
    cases rest with
    | nil => rfl
    | cons c rest =>
      obtain ⟨htab, hspace⟩ := h c rfl
      simp [indentLevel, htab, hspace]
  | cons unit indent ih =>
    cases unit <;> simp [IndentUnit.text, indentLevel, ih]

theorem withoutSpans_of_some {escaped : Bool} {c : Char} {rest rest' : Text}
    (h : (if escaped then none else spanCloser? c).bind (afterSpan · rest) = some rest') :
    withoutSpans escaped (c :: rest) = withoutSpans false rest' := by
  rw [withoutSpans]
  split
  · rename_i h'
    rw [h] at h'
    cases h'
    rfl
  · rename_i h'
    rw [h] at h'
    cases h'

theorem withoutSpans_of_none {escaped : Bool} {c : Char} {rest : Text}
    (h : (if escaped then none else spanCloser? c).bind (afterSpan · rest) = none) :
    withoutSpans escaped (c :: rest) = c :: withoutSpans (c == '\\') rest := by
  rw [withoutSpans]
  split
  · rename_i h'
    rw [h] at h'
    cases h'
  · rfl

theorem withoutSpans_eq_self {t : Text} (h : ∀ c ∈ t, spanCloser? c = none) (escaped : Bool) :
    withoutSpans escaped t = t := by
  induction t generalizing escaped with
  | nil => rw [withoutSpans]
  | cons c t ih =>
    have hc : (if escaped then none else spanCloser? c).bind (afterSpan · t) = none := by
      rw [h c List.mem_cons_self, ite_self]
      rfl
    rw [withoutSpans_of_none hc, ih fun d hd => h d (List.mem_cons_of_mem _ hd)]

theorem Text.occurrences_singleton (c : Char) (t : Text) : occurrences [c] t = t.count c := by
  rw [occurrences]
  induction t with
  | nil => rw [occurrences.go, List.count_nil]
  | cons d t ih =>
    have hstart : takePrefix? [c] (d :: t) = if c = d then some t else none := by
      by_cases hc : c = d <;> simp [takePrefix?, hc]
    rw [occurrences.go]
    split
    · rename_i rest h
      rw [hstart] at h
      split at h <;> cases h
      rename_i hc
      rw [ih, hc, List.count_cons_self]
    · rename_i h
      rw [hstart] at h
      split at h
      · cases h
      · rename_i hc
        rw [ih, List.count_cons_of_ne (Ne.symm hc)]

section Chain

variable (indent : List IndentUnit) (first : PlainNode) (others : List PlainNode) (trailing : Nat)

theorem head_body : ∃ c rest, first.text ++ chainText others = c :: rest ∧ IsBodyChar c := by
  obtain ⟨c, text, h⟩ := List.exists_cons_of_ne_nil first.ne_nil
  refine ⟨c, text ++ chainText others, by rw [h, List.cons_append], ?_⟩
  exact .inl (first.isNodeChar (by simp [h]))

theorem trim_chain : Text.trim isBlank (OutlineLine.chain indent first others trailing).text =
    first.text ++ chainText others := by
  refine Text.trim_append (fun c hc => ?_) (by simp [first.ne_nil])
    (fun c hc => (bodyChar_of_mem (List.mem_of_mem_head? hc)).not_isBlank)
    (fun c hc => (bodyChar_of_mem (List.mem_of_getLast? hc)).not_isBlank) fun c hc => ?_
  · rcases blank_of_mem_indent hc with rfl | rfl <;> decide
  · rw [(List.mem_replicate.1 hc).2]
    decide

theorem indentLevel_chain :
    indentLevel false (OutlineLine.chain indent first others trailing).text = indent.length := by
  rw [OutlineLine.text, List.append_assoc]
  refine indentLevel_append fun c hc => ?_
  obtain ⟨d, rest, hbody, hd⟩ := head_body first others
  rw [hbody] at hc
  obtain rfl : d = c := by simpa using hc
  have hblank := hd.not_isBlank
  refine ⟨?_, ?_⟩ <;> rintro rfl <;> exact absurd hblank (by decide)

theorem withoutSpans_line (line : OutlineLine) : withoutSpans false line.text = line.text := by
  refine withoutSpans_eq_self (fun c hc => ?_) false
  rcases OutlineLine.char_of_mem hc with rfl | rfl | hc | rfl
  · decide
  · decide
  · have h1 := ne_of_isNodeChar hc (show isNodeChar '"' = false by decide)
    have h2 := ne_of_isNodeChar hc (show isNodeChar '\'' = false by decide)
    have h3 := ne_of_isNodeChar hc (show isNodeChar '{' = false by decide)
    rw [spanCloser?, if_neg h1, if_neg h2, if_neg h3]
  · decide

theorem count_node (node : PlainNode) {c : Char} (hc : isNodeChar c = false) :
    node.text.count c = 0 :=
  List.count_eq_zero.2 fun h => ne_of_isNodeChar (node.isNodeChar h) hc rfl

theorem count_chainText (c : Char) (hc : isNodeChar c = false) :
    (chainText others).count c = if c = '>' then others.length else 0 := by
  induction others with
  | nil => simp [chainText]
  | cons node others ih =>
    have hcons : chainText (node :: others) = '>' :: (node.text ++ chainText others) := rfl
    rw [hcons, List.count_cons, List.count_append, count_node node hc, ih]
    by_cases h : c = '>'
    · simp [h]
    · simp [h, Ne.symm h]

theorem count_chain (c : Char) (hc : isNodeChar c = false) (htab : c ≠ '\t') (hspace : c ≠ ' ') :
    (OutlineLine.chain indent first others trailing).text.count c =
      if c = '>' then others.length else 0 := by
  have hindent : (indent.flatMap IndentUnit.text).count c = 0 :=
    List.count_eq_zero.2 fun h => by
      rcases blank_of_mem_indent h with rfl | rfl
      · exact htab rfl
      · exact hspace rfl
  have htrailing : (List.replicate trailing ' ').count c = 0 :=
    List.count_eq_zero.2 fun h => hspace (List.mem_replicate.1 h).2
  rw [OutlineLine.text, List.count_append, List.count_append, List.count_append, hindent,
    htrailing, count_node first hc, count_chainText others c hc]
  omega

/-- The next line is compared with the level of the last node of a line. -/
theorem levelAfter_chain :
    levelAfter false (OutlineLine.chain indent first others trailing).text =
      indent.length + others.length := by
  rw [levelAfter, indentLevel_chain, countOutsideSpans, countOutsideSpans, withoutSpans_line,
    Text.occurrences_singleton, Text.occurrences_singleton,
    count_chain _ _ _ _ '>' (by decide) (by decide) (by decide),
    count_chain _ _ _ _ '^' (by decide) (by decide) (by decide)]
  simp

end Chain

/-! ## Joining the lines -/

theorem source_replicate_climb (n : Nat) :
    source (List.replicate n .climb) = List.replicate n '^' := by
  induction n with
  | zero => rfl
  | succ n ih =>
    rw [List.replicate_succ, source_cons, ih]
    rfl

/-- Before anything is read, the level is `-1`, from which no operator leads on. -/
theorem source_joining (reached : Option Nat) (d : Nat) :
    source (joining reached d) = joint (reached.elim (-1) Int.ofNat) d := by
  cases reached with
  | none => rfl
  | some n =>
    show source (joining (some n) d) = joint (n : Int) d
    rw [joining, joint, if_neg (show ¬(n : Int) < 0 by omega)]
    rcases Nat.lt_trichotomy n d with hlt | rfl | hgt
    · rw [if_pos hlt, if_pos (by omega)]
      rfl
    · rw [if_neg (Nat.lt_irrefl n), if_pos rfl, if_neg (by omega), if_pos rfl]
      rfl
    · rw [if_neg (by omega), if_neg (by omega), if_neg (by omega), if_neg (by omega),
        source_replicate_climb]
      congr 1
      omega

theorem source_forestTokens_chain (d : Nat) (nodes : List PlainNode) (rest : Outline) :
    source (forestTokens (some d) (chainOutline (d + 1) nodes ++ rest)) =
      chainText nodes ++ source (forestTokens (some (d + nodes.length)) rest) := by
  induction nodes generalizing d with
  | nil => rfl
  | cons node nodes ih =>
    have hjoin : joining (some d) (d + 1) = [.nest] := by simp [joining]
    rw [chainOutline, List.cons_append, forestTokens, hjoin, List.cons_append, List.nil_append,
      source_cons, source_cons, ih]
    have hlen : d + 1 + nodes.length = d + (node :: nodes).length := by
      rw [List.length_cons]
      omega
    rw [hlen]
    simp [Token.text, chainText, PlainNode.element]

theorem trim_blank (spaces : Nat) (h : spaces ≠ 1) :
    Text.trim isBlank (OutlineLine.blank spaces h).text = [] := by
  have hblank : ∀ c ∈ (OutlineLine.blank spaces h).text, isBlank c = true := by
    intro c hc
    rw [(List.mem_replicate.1 hc).2]
    decide
  rw [Text.trim, List.dropWhile_eq_nil_iff.2 hblank]
  rfl

/-- The lines on one line are the tokens of their nodes. -/
theorem joinLines_outline (lines : List OutlineLine) (reached : Option Nat) :
    joinLines false (reached.elim (-1) Int.ofNat) (lines.map OutlineLine.text) =
      source (forestTokens reached (outlineOf lines)) := by
  induction lines generalizing reached with
  | nil => rfl
  | cons line lines ih =>
    rw [List.map_cons, joinLines]
    cases line with
    | blank spaces h =>
      simp only [trim_blank, List.isEmpty_nil, if_true, ih]
      rfl
    | chain indent first others trailing =>
      have hne : (first.text ++ chainText others).isEmpty = false := by simp [first.ne_nil]
      have hlevel : levelAfter false (OutlineLine.chain indent first others trailing).text =
          (some (indent.length + others.length)).elim (-1) Int.ofNat :=
        levelAfter_chain indent first others trailing
      have hhead : outlineOf (.chain indent first others trailing :: lines) =
          (indent.length, first.element) ::
            (chainOutline (indent.length + 1) others ++ outlineOf lines) := rfl
      simp only [trim_chain, hne, Bool.false_eq_true, if_false, hlevel, ih, indentLevel_chain]
      rw [hhead, forestTokens, source_append, source_cons, source_forestTokens_chain,
        source_joining, List.append_assoc, List.append_assoc]
      rfl

/-- No line starts with exactly one space. -/
theorem head_of_space {line : OutlineLine} {rest : Text} (h : line.text = ' ' :: rest) :
    rest.head? = some ' ' := by
  cases line with
  | blank spaces hs =>
    match spaces with
    | 0 => cases h
    | 1 => exact absurd rfl hs
    | n + 2 =>
      cases h
      rfl
  | chain indent first others trailing =>
    cases indent with
    | nil =>
      obtain ⟨c, rest', hbody, hc⟩ := head_body first others
      rw [OutlineLine.text, List.flatMap_nil, List.nil_append, hbody] at h
      obtain rfl : c = ' ' := (List.cons.inj h).1
      exact absurd hc.not_isBlank (by decide)
    | cons unit indent =>
      cases unit with
      | tab => cases h
      | spaces =>
        cases h
        rfl

theorem usesWideUnits_outline (lines : List OutlineLine) :
    usesWideUnits (lines.map OutlineLine.text) = false := by
  rw [usesWideUnits, List.getElem?_map]
  cases lines[2]? with
  | none => rfl
  | some line =>
    rw [Option.map_some]
    split
    · rename_i rest h
      simp [head_of_space (Option.some.inj h)]
    · rfl

/-- The text of an outline on one line is that of the tokens of its nodes. -/
theorem inlineIndentation_outlineText (lines : List OutlineLine) :
    inlineIndentation (outlineText lines) = source (forestTokens none (outlineOf lines)) := by
  cases lines with
  | nil => rfl
  | cons line lines =>
    have hsplit : (outlineText (line :: lines)).splitOn '\n' =
        (line :: lines).map OutlineLine.text := by
      refine List.splitOn_intercalate '\n' (fun text ht hmem => ?_) (by simp)
      obtain ⟨line', -, rfl⟩ := List.mem_map.1 ht
      -- no line holds a line end
      rcases OutlineLine.char_of_mem hmem with h | h | h | h
      · cases h
      · cases h
      · exact absurd h (by decide)
      · cases h
    rw [inlineIndentation, hsplit]
    simp only [usesWideUnits_outline]
    exact joinLines_outline (line :: lines) none

/-! ## The tokens of an outline -/

theorem isOperator_of_mem_joining {reached : Option Nat} {d : Nat} {token : Token}
    (h : token ∈ joining reached d) : token.isOperator = true := by
  unfold joining at h
  split at h
  · cases h
  · split at h
    · rw [List.mem_singleton.1 h]
      rfl
    · split at h
      · rw [List.mem_singleton.1 h]
        rfl
      · rw [(List.mem_replicate.1 h).2]
        rfl

theorem joining_ne_nil (n d : Nat) : joining (some n) d ≠ [] := by
  rw [joining]
  split
  · exact List.cons_ne_nil _ _
  · split
    · exact List.cons_ne_nil _ _
    · intro h
      have := (List.replicate_eq_nil_iff _).1 h
      omega

/-- After operators, a node may come. -/
theorem isSource_operators {ops rest : List Token} {free : Bool}
    (h : ∀ token ∈ ops, token.isOperator = true) (hfree : ops = [] → free = true) :
    isSource free (ops ++ rest) = isSource true rest := by
  induction ops generalizing free with
  | nil => rw [hfree rfl, List.nil_append]
  | cons token ops ih =>
    have hop := h token List.mem_cons_self
    have hwritten : token.isWritten = true ∧ token.isNode = false := by
      cases token with
      | times marker => cases hop
      | node text => cases hop
      | _ => exact ⟨rfl, rfl⟩
    rw [List.cons_append, isSource, hwritten.1, hwritten.2, hop]
    simpa using ih (fun t ht => h t (List.mem_cons_of_mem _ ht)) fun _ => rfl

/-- The elements with operators between them are read back, when each element is. -/
theorem isSource_forestTokens {xs : Outline} {reached : Option Nat} {free : Bool}
    (hfree : reached = none → free = true)
    (h : ∀ x ∈ xs, (Token.node x.2.text).isWritten = true) :
    isSource free (forestTokens reached xs) = true := by
  induction xs generalizing reached free with
  | nil => rfl
  | cons x xs ih =>
    obtain ⟨d, t⟩ := x
    have hempty : joining reached d = [] → free = true := by
      cases reached with
      | none => exact fun _ => hfree rfl
      | some n => exact fun hnil => absurd hnil (joining_ne_nil n d)
    rw [forestTokens, isSource_operators (fun _ => isOperator_of_mem_joining) hempty, isSource,
      h (d, t) List.mem_cons_self]
    have hrest : isSource false (forestTokens (some d) xs) = true :=
      ih (fun hr => by cases hr) fun y hy => h y (List.mem_cons_of_mem _ hy)
    simpa [Token.isNode, Token.isOperator] using hrest

theorem mem_source_forestTokens {xs : Outline} {reached : Option Nat} {c : Char}
    (h : c ∈ source (forestTokens reached xs)) :
    (∃ token : Token, token.isOperator = true ∧ c ∈ token.text) ∨ ∃ x ∈ xs, c ∈ x.2.text := by
  induction xs generalizing reached with
  | nil => cases h
  | cons x xs ih =>
    obtain ⟨d, t⟩ := x
    rw [forestTokens, source_append, source_cons, List.mem_append, List.mem_append] at h
    rcases h with h | h | h
    · obtain ⟨token, ht, hc⟩ := List.mem_flatMap.1 h
      exact .inl ⟨token, isOperator_of_mem_joining ht, hc⟩
    · exact .inr ⟨(d, t), List.mem_cons_self, h⟩
    · rcases ih h with hop | ⟨y, hy, hc⟩
      · exact .inl hop
      · exact .inr ⟨y, List.mem_cons_of_mem _ hy, hc⟩

theorem exists_plainNode_chain {d : Nat} {nodes : List PlainNode} {x : Nat × Element}
    (h : x ∈ chainOutline d nodes) : ∃ node : PlainNode, x.2 = node.element := by
  induction nodes generalizing d with
  | nil => cases h
  | cons node nodes ih =>
    rcases List.mem_cons.1 h with rfl | h
    · exact ⟨node, rfl⟩
    · exact ih h

/-- The elements of an outline are plain nodes. -/
theorem exists_plainNode {lines : List OutlineLine} {x : Nat × Element}
    (h : x ∈ outlineOf lines) : ∃ node : PlainNode, x.2 = node.element := by
  obtain ⟨line, -, hline⟩ := List.mem_flatMap.1 h
  cases line with
  | blank spaces hs => cases hline
  | chain indent first others trailing =>
    rcases List.mem_cons.1 hline with rfl | hline
    · exact ⟨first, rfl⟩
    · exact exists_plainNode_chain hline

theorem PlainNode.isWritten (node : PlainNode) : (Token.node node.text).isWritten = true := by
  have hplain : isLiteralFrom {} node.text = true := isLiteralFrom_of_plain fun c hc => by
    have := node.isNodeChar hc
    simp only [Shorthand.isNodeChar, Bool.and_eq_true] at this
    exact this.1.1.1.1
  simp [Token.isWritten, hplain, node.ne_nil]

/-- The tokens of an outline's text are its nodes with the operators between their depths. -/
theorem sourceTokens_outlineText (lines : List OutlineLine) :
    sourceTokens true (outlineText lines) = forestTokens none (outlineOf lines) := by
  have hsource : isSource true (forestTokens none (outlineOf lines)) = true := by
    refine isSource_forestTokens (fun _ => rfl) fun x hx => ?_
    obtain ⟨node, hnode⟩ := exists_plainNode hx
    rw [hnode]
    exact node.isWritten
  -- a comment would begin with `<`, which neither an operator nor a plain node holds
  have hcomment : NoComment (source (forestTokens none (outlineOf lines))) := by
    refine NoComment.of_not_mem fun h => ?_
    rcases mem_source_forestTokens h with ⟨token, hop, hc⟩ | ⟨x, hx, hc⟩
    · cases token <;> simp_all [Token.text, Token.isOperator]
    · obtain ⟨node, hnode⟩ := exists_plainNode hx
      rw [hnode] at hc
      exact ne_of_isNodeChar (node.isNodeChar hc) (by decide) rfl
  rw [sourceTokens, if_pos rfl, inlineIndentation_outlineText, stripComments_eq_self.2 hcomment,
    tokenize_source hsource]

/-! ## The forest of an outline -/

theorem staged_chainOutline {d : Nat} {nodes : List PlainNode} {rest : Outline}
    (h : Staged (d + nodes.length) rest) : Staged d (chainOutline d nodes ++ rest) := by
  induction nodes generalizing d with
  | nil => exact h
  | cons node nodes ih =>
    refine ⟨Nat.le_refl d, ih ?_⟩
    rwa [Nat.add_right_comm]

/-- In well indented lines the depths go down by one at a time. -/
theorem staged_outlineOf {n : Nat} {lines : List OutlineLine} (h : WellIndented n lines) :
    Staged n (outlineOf lines) := by
  induction lines generalizing n with
  | nil => trivial
  | cons line lines ih =>
    cases line with
    | blank spaces hs => exact ih h
    | chain indent first others trailing =>
      refine ⟨h.1, staged_chainOutline ?_⟩
      rw [Nat.add_right_comm]
      exact ih h.2

/-- **Indented writing shows a forest.** There is exactly one forest with the nodes of the lines at
their depths, and its markup is the output. -/
theorem expand_outline {c : Compiler} (hcache : c.cache = none) (hindented : c.indented = true)
    {call : Option Resolver} (hr : (c.resolverFor call).ByContext) (o : Occasion)
    (files : FileTree) {lines : List OutlineLine} (h : WellIndented 0 lines) :
    ∃ f : Forest, f.preorder 0 = outlineOf lines ∧
      (∀ g : Forest, g.preorder 0 = outlineOf lines → g = f) ∧
      (c.expand o files (outlineText lines) call).output =
        List.flatten <$> f.fragments c.tables.attributes (c.resolverFor call) [] := by
  obtain ⟨f, hf⟩ := exists_preorder (staged_outlineOf h) fun _ _ => Nat.zero_le _
  refine ⟨f, hf, fun g hg => preorder_injective (hg.trans hf.symm), ?_⟩
  rw [Compiler.output_expand hcache, Compiler.render, hindented, sourceTokens_outlineText, ← hf,
    expandTokens_forestTokens hr]

/-- Two roots, the first with two nodes inside it. -/
theorem expand_outline_lines :
    let ul : PlainNode := ⟨"ul".toList, by decide, by decide⟩
    let li : PlainNode := ⟨"li.a".toList, by decide, by decide⟩
    let inner : PlainNode := ⟨".b".toList, by decide, by decide⟩
    let lines : List OutlineLine := [.chain [] ul [] 0, .chain [.spaces] li [inner] 0,
      .blank 0 (by decide), .chain [.tab] li [] 1, .chain [] ul [] 0]
    outlineText lines = "ul\n  li.a>.b\n\n\tli.a \nul".toList ∧ WellIndented 0 lines ∧
      listTags.ByContext ∧
      (Compiler.expand { resolver := some listTags } {} .nil (outlineText lines)).output =
        .ok ("<ul><li class=\"a\"><li class=\"b\"></li></li>".toList ++
          "<li class=\"a\"></li></ul><ul></ul>".toList) := by
  intro ul li inner lines
  have hlines : WellIndented 0 lines := by simp [lines, WellIndented]
  refine ⟨by decide +kernel, hlines, listTags_byContext, ?_⟩
  have hr : (({ resolver := some listTags } : Compiler).resolverFor none).ByContext :=
    listTags_byContext
  obtain ⟨f, -, hunique, houtput⟩ := expand_outline rfl rfl hr {} .nil hlines
  rw [houtput, ← hunique (.cons ul.element (.cons li.element (.cons inner.element .nil .nil)
    (.cons li.element .nil .nil)) (.cons ul.element .nil .nil)) rfl]
  decide +kernel

end Shorthand
