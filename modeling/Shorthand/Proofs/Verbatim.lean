import Shorthand.Proofs.Resolution
import Shorthand.Proofs.Spans
import Shorthand.Proofs.Surrounding

/-!
# Texts in braces

A text in braces stands in the markup as it is.

- `Node.markup`: the markup of a node that stands alone.
- `expandTokens_of_isLiteral`: a literal expands to the markup of the node that it writes.
- `newline_not_mem_content`: the content of a node ends with its line.
- `expand_braced_iff`: a text in braces is kept exactly if it stands on one line.
-/

namespace Shorthand

variable {t c : Text}

/-! ## A node alone -/

/-- The markup of a node that stands alone. -/
def Node.markup (tables : Tables) (node : Node) : Text :=
  if node.isText then node.content
  else
    let tag := tables.resolve node.tag [] []
    Expansion.openingFragment tag node ++ closingFragment tag.name

namespace Expansion

theorem finish_writeNode (tables : Tables) (text : Text) :
    finish <$> writeNode tables.attributes tables.resolver {} text =
      .ok ((Node.parse tables.attributes text).markup tables) := by
  cases h : (Node.parse tables.attributes text).isText with
  | true => simp [writeNode, Node.markup, h, finish_eq, pure, Except.pure]
  | false =>
    have hclosing : ∀ name, (closings [name]).flatten = closingFragment name := by
      intro name
      cases hvoid : isVoid name <;> simp [closings_cons, closingFragment, hvoid]
    simp [writeNode, Node.markup, h, Tables.resolver, finish_eq, hclosing, pure, Except.pure]

theorem run_siblings (attributes : Table) (resolver : Resolver) {tokens : List Token}
    (h : ∀ token ∈ tokens, token = .sibling) (e : Expansion) :
    ∃ n, run attributes resolver e tokens = .ok (closeTags n e) := by
  induction tokens generalizing e with
  | nil => exact ⟨0, rfl⟩
  | cons token tokens ih =>
    obtain ⟨n, hn⟩ := ih (fun u hu => h u (List.mem_cons_of_mem _ hu)) (closeTags e.openCount e)
    refine ⟨e.openCount + n, ?_⟩
    rw [h token List.mem_cons_self, run_cons, step_sibling, ok_bind, hn, closeTags_add]

end Expansion

/-- A literal expands as the node that it writes; implied `+` change nothing. -/
theorem expandTokens_of_isLiteral (tables : Tables) (hne : t ≠ []) (hstar : t.head? ≠ some '*')
    (h : IsLiteral t) : expandTokens tables.attributes tables.resolver (tokenize t) =
      .ok ((Node.parse tables.attributes t).markup tables) := by
  have hlexemes := lexemes_of_isLiteral hne h
  rw [Token.literal_of_head hstar] at hlexemes
  obtain ⟨before, behind, hsplit, hbefore, -, hbehind⟩ := List.filter_eq_cons_iff.1 hlexemes
  have hsibling : ∀ ls : List Lexeme, (∀ l ∈ ls, l ∈ lexemes t ∧ l.implied = true) →
      ∀ token ∈ ls.map Lexeme.token, token = .sibling := by
    intro ls hls token htoken
    obtain ⟨l, hl, rfl⟩ := List.mem_map.1 htoken
    exact Scanner.eq_sibling_of_implied (hls l hl).1 (hls l hl).2
  obtain ⟨m, hm⟩ := Expansion.run_siblings tables.attributes tables.resolver
    (hsibling before fun l hl =>
      ⟨by simp [hsplit, hl], by simpa using hbefore l hl⟩) {}
  have hstart : Expansion.closeTags m {} = {} := by simp [Expansion.closeTags_eq]
  rw [expandTokens, tokenize, hsplit, List.map_append, List.map_cons, Expansion.run_append, hm,
    ok_bind, hstart, Expansion.run_cons]
  obtain ⟨e, he, hmarkup⟩ := map_eq_ok (Expansion.finish_writeNode tables t)
  obtain ⟨n, hn⟩ := Expansion.run_siblings tables.attributes tables.resolver
    (hsibling behind fun l hl =>
      ⟨by simp [hsplit, hl], by simpa using List.filter_eq_nil_iff.1 hbehind l hl⟩) e
  have hstep : Expansion.step tables.attributes tables.resolver {} (.node t) = .ok e := he
  rw [hstep, ok_bind, hn, ok_bind, Expansion.finish_closeTags, hmarkup]
  rfl

/-! ## Content -/

namespace Part

theorem newline_not_mem_splitAtLast {close : Char} {t : Text} {p : Text × Text}
    (h : splitAtLast close t = some p) : '\n' ∉ p.1 := by
  fun_induction splitAtLast close t generalizing p with
  | case1 => cases h
  | case2 => cases h
  | case3 d rest hd inside after hs ih =>
    cases h
    simpa [Ne.symm hd] using ih hs
  | case4 =>
    cases h
    simp
  | case5 => cases h

theorem newline_not_mem_content {t text : Text} (h : content text ∈ scan t) : '\n' ∉ text := by
  obtain ⟨u, rest, -, hread⟩ := exists_read?_of_mem_scan h
  obtain ⟨u, -, hspan⟩ := read?_eq_content hread
  exact newline_not_mem_splitAtLast (Option.filter_eq_some_iff.1 hspan).1

end Part

namespace Node

/-- The content of a node ends with its line. -/
theorem newline_not_mem_content (table : Table) (t : Text) : '\n' ∉ (parse table t).content := by
  rcases content_foldl_cases table (Part.scan t) {} with h | ⟨text, hmem, h⟩
  · rw [parse, h]
    simp
  · rw [parse, h]
    exact Part.newline_not_mem_content hmem

/-- The tag that a node has before its parts are read is its tag, unless a part names another. -/
theorem foldl_tag (table : Table) (parts : List Part) (node : Node) (tag : Text) :
    parts.foldl (add table) { node with tag } = parts.foldl (add table) node ∨
      parts.foldl (add table) { node with tag } = { parts.foldl (add table) node with tag } := by
  induction parts generalizing node with
  | nil => exact .inr rfl
  | cons part parts ih =>
    have hnext := ih (node.add table part)
    cases part with
    | word text => exact .inl rfl
    | _ => exact hnext

end Node

/-! ## Compiling -/

/-- The output for a literal is the markup of the node that it writes. -/
theorem Compiler.output_of_isLiteral (tables : Tables) (o : Occasion) (files : FileTree)
    (hne : t ≠ []) (hstar : t.head? ≠ some '*') (hliteral : IsLiteral t)
    (hcomment : ¬ "<!--".toList <:+: t) :
    (Compiler.expand { tables, indented := false } o files t).output =
      .ok ((Node.parse tables.attributes t).markup tables) := by
  rw [output_expand rfl, render, sourceTokens_of_noComment (.of_mark_absent hcomment)]
  exact expandTokens_of_isLiteral tables hne hstar hliteral

/-- A word of letters that is no abbreviation names its own tag. -/
theorem Tables.resolve_letters {tables : Tables} (hne : t ≠ []) (ht : ∀ ch ∈ t, ch.isAlpha = true)
    (htable : tables.tags.get? (lower t) = none) : tables.resolve t [] [] = { name := t } := by
  have hcolon : ∀ ch ∈ t, (ch != ':') = true := fun ch hch => by
    simpa using ne_of_isAlpha (ht ch hch) (show ':'.isAlpha = false by decide)
  have hbefore : Text.beforeFirst ':' t = t := List.takeWhile_eq_self_iff.2 hcolon
  have hafter : Text.afterFirst ':' t = [] := by
    rw [Text.afterFirst, List.dropWhile_eq_nil_iff.2 hcolon, List.drop_nil]
  have hname : expandName tables.tags t = t :=
    expandName_of_rests fun next hnext => by simp [Table.Leads, htable] at hnext
  rw [resolve_named (by rwa [hbefore]), hbefore, hafter, hname]
  rfl

namespace Node

/-- The markup of a node with a tag of its own. -/
theorem markup_of_tag {tables : Tables} {node : Node} (hne : node.tag ≠ [])
    (hvoid : isVoid node.tag = false)
    (hresolve : tables.resolve node.tag [] [] = { name := node.tag }) :
    node.markup tables = '<' :: (node.tag ++ (node.attributeText ++ '>' ::
      (node.content ++ '<' :: '/' :: (node.tag ++ ['>'])))) := by
  have htext : node.isText = false := by simp [isText, hne]
  rw [markup, htext, if_neg (by decide), hresolve]
  simp [Expansion.openingFragment, closingFragment_of_not_void hvoid]

/-- Markup that goes on with `>` behind the tag has no attributes. -/
theorem content_eq_of_markup_eq {tables : Tables} {node : Node} (hne : node.tag ≠ [])
    (hvoid : isVoid node.tag = false)
    (hresolve : tables.resolve node.tag [] [] = { name := node.tag })
    (h : node.markup tables =
      '<' :: (node.tag ++ '>' :: (c ++ '<' :: '/' :: (node.tag ++ ['>'])))) :
    node.content = c := by
  rw [markup_of_tag hne hvoid hresolve] at h
  have hrest := List.append_cancel_left (List.cons.inj h).2
  cases hattributes : node.attributeText with
  | nil =>
    rw [hattributes] at hrest
    exact List.append_cancel_right (List.cons.inj hrest).2
  | cons d rest =>
    have hd := node.head_attributeText_eq d (by rw [hattributes]; rfl)
    rw [hattributes, hd] at hrest
    simp at hrest

/-- A word of letters in front of braces is the tag that the node begins with. -/
theorem parse_letters_braces (table : Table) (hne : t ≠ []) (ht : ∀ ch ∈ t, ch.isAlpha = true)
    (rest : Text) : parse table (t ++ '{' :: rest) =
      (Part.scan ('{' :: rest)).foldl (add table) { tag := t } := by
  rw [parse, Part.scan_word hne fun c hc => isPartChar_of_isAlpha (ht c hc)]
  · rfl
  · intro d hd
    obtain rfl : '{' = d := by simpa using hd
    decide

end Node

/-- **Text in braces is kept as it is** exactly if it stands on one line. -/
theorem expand_braced_iff (tables : Tables) (o : Occasion) (files : FileTree) (hne : t ≠ [])
    (ht : ∀ ch ∈ t, ch.isAlpha = true) (hvoid : isVoid t = false)
    (htable : tables.tags.get? (lower t) = none) (hc : c ≠ []) (hbraces : BalancedBraces c)
    (hcomment : ¬ "<!--".toList <:+: t ++ '{' :: (c ++ ['}'])) :
    let output (source : Text) :=
      (Compiler.expand { tables, indented := false } o files source).output
    (output (t ++ '{' :: (c ++ ['}'])) =
        .ok ('<' :: (t ++ '>' :: (c ++ '<' :: '/' :: (t ++ ['>'])))) ∧
      output ('{' :: (c ++ ['}'])) = .ok c) ↔ '\n' ∉ c := by
  intro output
  have hnamed : output (t ++ '{' :: (c ++ ['}'])) =
      .ok ((Node.parse tables.attributes (t ++ '{' :: (c ++ ['}']))).markup tables) := by
    refine Compiler.output_of_isLiteral tables o files (by simp) ?_
      (isLiteral_braces (startsLiteral_letters ht) (depthAfter_letters ht) hbraces) hcomment
    obtain ⟨d, t', rfl⟩ := List.exists_cons_of_ne_nil hne
    have := ne_of_isAlpha (ht d List.mem_cons_self) (show '*'.isAlpha = false by decide)
    simpa using this
  have hbare : output ('{' :: (c ++ ['}'])) =
      .ok ((Node.parse tables.attributes ('{' :: (c ++ ['}']))).markup tables) := by
    have hnone : StartsLiteral [] := fun before x rest hsplit => by simp at hsplit
    refine Compiler.output_of_isLiteral tables o files (by simp) (by simp)
      (isLiteral_braces hnone rfl hbraces) fun h => hcomment ?_
    exact h.trans (List.suffix_append t _).isInfix
  have hresolve := Tables.resolve_letters hne ht htable
  rw [hnamed, hbare, Node.parse_letters_braces _ hne ht]
  constructor
  · rintro ⟨h, h'⟩ hline
    rcases Node.foldl_tag tables.attributes (Part.scan ('{' :: (c ++ ['}']))) {} t with
      hword | htag
    · -- a word among the later parts names the tag, so both sources would have one output
      rw [hword] at h
      have hlength := congrArg List.length (Except.ok.inj (h.symm.trans h'))
      simp only [List.length_cons, List.length_append] at hlength
      omega
    · rw [htag] at h
      have hcontent := Node.content_eq_of_markup_eq hne hvoid hresolve (Except.ok.inj h)
      exact Node.newline_not_mem_content tables.attributes ('{' :: (c ++ ['}']))
        (hcontent.symm ▸ hline)
  · intro hline
    rw [Node.parse, Part.scan_braces hc hline]
    refine ⟨congrArg _ ((Node.markup_of_tag hne hvoid hresolve).trans rfl), congrArg _ ?_⟩
    simp [Node.markup, Node.add, Node.isText, hc]

/-- Operators, repeat markers, brackets and inner braces in a text are text. -/
theorem expand_braced_operators :
    let output (source : String) :=
      (Compiler.expand { tables := {}, indented := false } {} .nil source.toList).output
    output "p\x7ba>b[c]*2\x7bd\x7d\x7d" = .ok "<p>a>b[c]*2\x7bd\x7d</p>".toList ∧
      output "\x7ba>b[c]*2\x7bd\x7d\x7d" = .ok "a>b[c]*2\x7bd\x7d".toList :=
  (expand_braced_iff (t := ['p']) (c := "a>b[c]*2\x7bd\x7d".toList) {} {} .nil (by decide)
    (List.forall_mem_singleton.2 rfl) (by decide) (by decide) (by decide) (by decide)
    (by decide)).2 (by decide)

/-- A line break in a text is lost together with the text in front of it. -/
theorem expand_braced_lines :
    let c : Text := ['a', '\n', 'b']
    let source : Text := 'p' :: '{' :: (c ++ ['}'])
    BalancedBraces c ∧ ¬ "<!--".toList <:+: source ∧
      (Compiler.expand { tables := {}, indented := false } {} .nil source).output ≠
        .ok ("<p>".toList ++ c ++ "</p>".toList) := by
  decide +kernel

end Shorthand
