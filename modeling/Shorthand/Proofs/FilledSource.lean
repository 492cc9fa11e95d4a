import Shorthand.Proofs.Filling
import Shorthand.Proofs.Resolution
import Shorthand.Proofs.Source

/-!
# Giving a node of a source a text

A closing brace puts a `+` behind the operator that follows it. A node that is given a text in
braces therefore keeps all others in their places when that `+` has nothing to close.

- `ClosesBehind`: what follows the node closes its tag, or is nothing, or repeats it.
- `Traced.run_withSibling`: in that case the `+` changes nothing.
- `Token.namesTag`: a node that names a tag of its own, which is not void.
- `expand_filled`: what a source expands to when one of its nodes is given a text.
- `expand_text_moves`: where nodes go on inside the tag, the text moves them out of it.
-/

namespace Shorthand

/-! ## A `+` that changes nothing -/

/-- The tokens after a node do not go on inside its tag: an operator closes it, a repeat marker
repeats it, or it is the last. The expansion is that before the node. -/
def ClosesBehind (e : Expansion) : List Token → Prop
  | .nest :: _ | .openGroup :: _ => False
  | .closeGroup :: _ => e.innermost.depth ≤ e.openTags.length
  | _ => True

namespace Expansion

theorem step_sibling_eq_self {attributes : Table} {resolver : Resolver} {e : Expansion}
    (h : e.openCount = 0) : step attributes resolver e .sibling = .ok e := by
  rw [step_sibling, h]
  rfl

/-- An operator that closes the tag of the last node leaves nothing for a `+` to close. -/
theorem openCount_operator {attributes : Table} {resolver : Resolver} {e e' : Expansion}
    {token : Token} {name : Text} {tags : List Text} (hop : token.isOperator = true)
    (hopen : e.openTags = name :: tags) (hv : isVoid name = false)
    (hclose : token = .sibling ∨ 0 < e.closeCount token)
    (hstep : step attributes resolver e token = .ok e') : e'.openCount = 0 := by
  rw [step_operator hop, Except.ok.injEq] at hstep
  have hresult : e'.result = e.closedResult token := by rw [← hstep]
  rw [closedResult, hopen] at hresult
  cases hn : e.closeCount token with
  | zero =>
    obtain rfl | hclose := hclose
    · rw [hn, List.take_zero, closings_nil, List.append_nil] at hresult
      have hsame : e'.openCount = e.openCount := by
        rw [openCount, openCount, lastIsOpen, lastIsOpen, hresult]
      exact hsame.trans hn
    · omega
  | succ n =>
    rw [hn, List.take_succ_cons] at hresult
    exact openCount_closed hv hresult

end Expansion

namespace Traced

variable {attributes : Table} {resolver : Resolver}

theorem step_sibling_eq_self {t : Traced} (h : t.state.openCount = 0) :
    t.step attributes resolver .sibling = .ok t := by
  rw [step_of_ok (Expansion.step_sibling_eq_self h), rolesAfter_operator rfl]
  simp [Expansion.closeCount, h, closingRoles, Token.isNode]

/-- The operator behind a node whose tag it closes leaves nothing for a `+` to close. -/
theorem openCount_closesBehind {t t₁ t₂ : Traced} {text : Text} {token : Token}
    {rest : List Token} (htext : (Node.parse attributes text).isText = false)
    (hv : ∀ openTags result name, resolver (Node.parse attributes text).tag openTags result =
      .ok name → isVoid name.name = false)
    (hop : token.isOperator = true) (hclose : ClosesBehind t.state (token :: rest))
    (hnode : t.step attributes resolver (.node text) = .ok t₁)
    (hstep : t₁.step attributes resolver token = .ok t₂) : t₂.state.openCount = 0 := by
  rcases Expansion.writeNode_eq_ok (step_eq_ok hnode).1 with ⟨htext', -⟩ | ⟨-, tag, htag, heq⟩
  · rw [htext] at htext'
    cases htext'
  · have hopen : t₁.state.openTags = tag.name :: t.state.openTags := by rw [heq]
    refine Expansion.openCount_operator hop hopen (hv _ _ _ htag) ?_ (step_eq_ok hstep).1
    cases token with
    | sibling => exact .inl rfl
    | climb => exact .inr (Nat.succ_pos _)
    | closeGroup =>
      have hinner : t₁.state.innermost = t.state.innermost := by
        rw [heq]
        rfl
      have hle : t.state.innermost.depth ≤ t.state.openTags.length := hclose
      refine .inr ?_
      rw [Expansion.closeCount, hopen, hinner, List.length_cons]
      omega
    | nest | openGroup => exact hclose.elim
    | times marker => cases hop
    | node text => cases hop

/-- Behind a node whose tag is closed, an additional `+` changes nothing. -/
theorem run_withSibling {t : Traced} {text : Text} {after : List Token}
    (htext : (Node.parse attributes text).isText = false)
    (hv : ∀ openTags result name, resolver (Node.parse attributes text).tag openTags result =
      .ok name → isVoid name.name = false)
    (hclose : ClosesBehind t.state after) :
    t.run attributes resolver (.node text :: withSibling after) =
      t.run attributes resolver (.node text :: after) := by
  cases after with
  | nil => rfl
  | cons token rest =>
    by_cases hop : token.isOperator
    · rw [withSibling, if_pos hop, run_cons, run_cons]
      refine bind_congr_ok fun t₁ hnode => ?_
      rw [run_cons, run_cons]
      refine bind_congr_ok fun t₂ hstep => ?_
      have hzero := openCount_closesBehind htext hv hop hclose hnode hstep
      rw [run_cons, step_sibling_eq_self hzero, ok_bind]
    · rw [withSibling, if_neg hop]

end Traced

/-! ## Nodes that name their tags -/

/-- The name that a node's tag starts with, before any suffix. -/
def Node.baseName (node : Node) : Text :=
  Text.beforeFirst ':' node.tag

/-- A node names a tag of its own, which stands for a tag that is not void. -/
def Token.namesTag (tables : Tables) : Token → Bool
  | .node text =>
    let base := (Node.parse tables.attributes text).baseName
    !base.isEmpty && !isVoid (expandName tables.tags base)
  | _ => true

theorem Token.settled_of_namesTag {tables : Tables} {token : Token}
    (h : token.namesTag tables = true) : token.Settled tables.attributes tables.resolver := by
  cases token with
  | node text =>
    simp only [namesTag, Node.baseName, Bool.and_eq_true, Bool.not_eq_true',
      List.isEmpty_eq_false_iff] at h
    refine ⟨fun htag => h.1 ?_, fun openTags result result' => ?_⟩
    · rw [htag]
      rfl
    · rw [Tables.resolver, Tables.resolver, Tables.resolve_named h.1, Tables.resolve_named h.1]
  | _ => trivial

theorem isVoid_of_namesTag {tables : Tables} {text : Text}
    (h : (Token.node text).namesTag tables = true) {openTags result : List Text} {name : TagName}
    (hname : tables.resolver (Node.parse tables.attributes text).tag openTags result = .ok name) :
    isVoid name.name = false := by
  simp only [Token.namesTag, Node.baseName, Bool.and_eq_true, Bool.not_eq_true',
    List.isEmpty_eq_false_iff] at h
  rw [Tables.resolver, Tables.resolve_named h.1] at hname
  cases hname
  exact h.2

/-! ## The source with and without the text -/

theorem not_mem_of_isLiteralFrom {t : Text} {d : Depth} (h : isLiteralFrom d t = true) :
    '{' ∉ t := by
  induction t generalizing d with
  | nil => simp
  | cons c t ih =>
    simp only [isLiteralFrom, Bool.and_eq_true, bne_iff_ne, ne_eq] at h
    rw [List.mem_cons, not_or]
    exact ⟨Ne.symm h.1.1.1, ih h.2⟩

theorem isSource_append {before after : List Token} {free : Bool}
    (h : isSource free (before ++ after) = true) : ∃ free', isSource free' after = true := by
  induction before generalizing free with
  | nil => exact ⟨free, h⟩
  | cons token before ih =>
    simp only [List.cons_append, isSource, Bool.and_eq_true] at h
    exact ih h.2

/-- A `+` may be written behind the operator that follows a node. -/
theorem isSource_withSibling {before after : List Token} {text : Text} {free : Bool}
    (h : isSource free (before ++ .node text :: after) = true) :
    isSource free (before ++ .node text :: withSibling after) = true := by
  induction before generalizing free with
  | nil =>
    cases after with
    | nil => exact h
    | cons token after =>
      by_cases hop : token.isOperator
      · simp_all [withSibling, isSource, Token.isWritten, Token.isOperator, Token.isNode]
      · rw [withSibling, if_neg hop]
        exact h
  | cons token before ih =>
    simp only [List.cons_append, isSource, Bool.and_eq_true] at h ⊢
    exact ⟨h.1, ih h.2⟩

/-- A source with a `+` behind the operator that follows a node has no comments either. -/
theorem noComment_withSibling {before after : List Token} {text : Text}
    (h : NoComment (source (before ++ .node text :: after))) :
    NoComment (source (before ++ .node text :: withSibling after)) := by
  cases after with
  | nil => exact h
  | cons token after =>
    by_cases hop : token.isOperator
    · rw [withSibling, if_pos hop]
      have hplus : '+' ∉ "<!->".toList := by decide
      have hplain : NoComment (source before ++ text ++ token.text ++ source after) := by
        simpa [source_append, Token.text] using h
      simpa [source_append, Token.text] using hplain.insert hplus
    · rw [withSibling, if_neg hop]
      exact h

/-- A source with a text of letters in braces behind a node has no comments either. -/
theorem noComment_filled {before after : List Token} {text content : Text} (hc : IsWord content)
    (h : NoComment (source (before ++ .node text :: after))) :
    NoComment (source (before ++ .node (text ++ '{' :: (content ++ ['}'])) :: after)) := by
  have hbraces : ∀ m ∈ '{' :: (content ++ ['}']), m ∉ "<!->".toList := by
    intro m hm hmem
    have hmarks : "<!->".toList.all (!isWordChar ·) = true := by decide
    have hword : isWordChar m = false := by simpa using List.all_eq_true.1 hmarks m hmem
    simp only [List.mem_cons, List.mem_append, List.not_mem_nil, or_false] at hm
    rcases hm with rfl | hm | rfl
    · exact absurd hmem (by decide)
    · exact hc.not_mem hword hm
    · exact absurd hmem (by decide)
  rw [source_append, source_cons, Token.text, ← List.append_assoc] at h
  rw [source_append, source_cons, Token.text, List.append_assoc, ← List.append_assoc]
  exact NoComment.insertAll hbraces h

theorem mem_withSibling {tokens : List Token} {token : Token} (h : token ∈ withSibling tokens) :
    token ∈ tokens ∨ token = .sibling := by
  cases tokens with
  | nil => exact .inl h
  | cons first rest =>
    rw [withSibling] at h
    split at h
    · simp only [List.mem_cons] at h ⊢
      rcases h with h | h | h
      · exact .inl (.inl h)
      · exact .inr h
      · exact .inl (.inr h)
    · exact .inl h

/-! ## The outputs -/

section Outputs

variable {tables : Tables} {before after : List Token} {text content : Text}

theorem settled_withSibling
    (hnames : ∀ token ∈ before ++ .node text :: after, token.namesTag tables = true) :
    ∀ token ∈ before ++ .node text :: withSibling after,
      token.Settled tables.attributes tables.resolver := by
  intro token ht
  have hmem : token ∈ before ++ .node text :: after ∨ token = .sibling := by
    simp only [List.mem_append, List.mem_cons] at ht ⊢
    rcases ht with ht | ht | ht
    · exact .inl (.inl ht)
    · exact .inl (.inr (.inl ht))
    · exact (mem_withSibling ht).imp (fun h => .inr (.inr h)) id
  rcases hmem with hmem | rfl
  · exact Token.settled_of_namesTag (hnames token hmem)
  · trivial

/-- The output of a source with a text is read off the run with the `+` and without the text. -/
theorem Compiler.output_filled (o : Occasion) (files : FileTree)
    (hsource : isSource true (before ++ .node text :: after) = true)
    (hcomment : NoComment (source (before ++ .node text :: after)))
    (hnames : ∀ token ∈ before ++ .node text :: after, token.namesTag tables = true)
    (hc : IsWord content) :
    (Compiler.expand { tables, indented := false } o files
        (source (before ++ .node (text ++ '{' :: (content ++ ['}'])) :: after))).output =
      (fun t => (t.filled (before.countP Token.isNode) content).finish) <$>
        Traced.run tables.attributes tables.resolver {}
          (before ++ .node text :: withSibling after) := by
  obtain ⟨free, hnode⟩ := isSource_append hsource
  simp only [isSource, Token.isWritten, Bool.and_eq_true] at hnode
  have hbrace : '{' ∉ text := not_mem_of_isLiteralFrom hnode.1.1.2
  have htokens := tokenize_filled hsource (hc.not_mem (c := '{') (by decide))
    (hc.not_mem (c := '}') (by decide))
  have hrun := Traced.run_filled (settled_withSibling hnames) hbrace hc
  rw [Compiler.output_expand rfl, Compiler.render,
    sourceTokens_of_noComment (noComment_filled hc hcomment), htokens, expandTokens,
    bind_pure_comp, Compiler.resolverFor]
  simp only [Option.orElse, Option.getD]
  rw [hrun, ← comp_map]
  rfl

/-- The `+` changes nothing in a whole run when the node's tag is closed there anyway. -/
theorem Traced.run_append_withSibling (hname : (Token.node text).namesTag tables = true)
    (hclose : ∀ e, Expansion.run tables.attributes tables.resolver {} before = .ok e →
      ClosesBehind e after) :
    Traced.run tables.attributes tables.resolver {} (before ++ .node text :: withSibling after) =
      Traced.run tables.attributes tables.resolver {} (before ++ .node text :: after) := by
  rw [Traced.run_append, Traced.run_append]
  refine bind_congr_ok fun t hrun => ?_
  exact Traced.run_withSibling (Node.isText_of_tag (Token.settled_of_namesTag hname).1)
    (fun _ _ _ h => isVoid_of_namesTag hname h) (hclose t.state (run_eq_ok hrun))

end Outputs

/-- **A node that is given a text.** The output is that of the source with a `+` behind the operator
that follows the node, with the text right after the opening tag of the node, in each of its copies.
When the node's tag is closed there anyway, the `+` changes nothing. -/
theorem expand_filled (tables : Tables) (o : Occasion) (files : FileTree)
    {before after : List Token} {text content : Text}
    (hsource : isSource true (before ++ .node text :: after) = true)
    (hcomment : stripComments (source (before ++ .node text :: after)) =
      source (before ++ .node text :: after))
    (hnames : ∀ token ∈ before ++ .node text :: after, token.namesTag tables = true)
    (hc : IsWord content) :
    let output tokens :=
      (Compiler.expand { tables, indented := false } o files (source tokens)).output
    let run := Traced.run tables.attributes tables.resolver {}
    let plain := before ++ .node text :: after
    let spaced := before ++ .node text :: withSibling after
    let filled := before ++ .node (text ++ '{' :: (content ++ ['}'])) :: after
    output plain = (fun t => t.state.finish) <$> run plain ∧
    output spaced = (fun t => t.state.finish) <$> run spaced ∧
    output filled =
      (fun t => (t.filled (before.countP Token.isNode) content).finish) <$> run spaced ∧
    ((∀ e, Expansion.run tables.attributes tables.resolver {} before = .ok e →
      ClosesBehind e after) → run spaced = run plain) := by
  intro output run plain spaced filled
  have hplain : NoComment (source plain) := stripComments_eq_self.1 hcomment
  refine ⟨?_, ?_, ?_, ?_⟩
  · exact (Compiler.output_source tables o files hsource hplain).trans (Traced.expandTokens_eq _)
  · have hspaced : NoComment (source spaced) := noComment_withSibling hplain
    exact (Compiler.output_source tables o files (isSource_withSibling hsource) hspaced).trans
      (Traced.expandTokens_eq _)
  · exact Compiler.output_filled o files hsource hplain hnames hc
  · exact Traced.run_append_withSibling (hnames (.node text) (by simp))

/-- `ul>(li{hi})*2+p` -/
theorem expand_filled_group :
    let before : List Token := [.node "ul".toList, .nest, .openGroup]
    let after : List Token := [.closeGroup, .times ['2'], .sibling, .node ['p']]
    let plain := before ++ .node "li".toList :: after
    isSource true plain = true ∧ stripComments (source plain) = source plain ∧
      (∀ token ∈ plain, token.namesTag {} = true) ∧ IsWord "hi".toList ∧
      (∀ e, Expansion.run [] ({} : Tables).resolver {} before = .ok e → ClosesBehind e after) ∧
      (Compiler.expand { indented := false } {} .nil "ul>(li{hi})*2+p".toList).output =
        .ok "<ul><li>hi</li><li>hi</li><p></p></ul>".toList := by
  intro before after plain
  have hsource : isSource true plain = true := by decide +kernel
  have hcomment : stripComments (source plain) = source plain := by decide +kernel
  have hnames : ∀ token ∈ plain, token.namesTag {} = true := by decide +kernel
  have hword : IsWord "hi".toList := .of_all (by decide) (by decide)
  have hrun : Expansion.run [] ({} : Tables).resolver {} before =
      .ok { result := ["<ul>".toList], openTags := ["ul".toList], groups := [⟨1, 1⟩] } := by
    decide +kernel
  have hclose : ∀ e, Expansion.run [] ({} : Tables).resolver {} before = .ok e →
      ClosesBehind e after := by
    intro e he
    rw [hrun] at he
    cases he
    exact Nat.le_refl 1
  refine ⟨hsource, hcomment, hnames, hword, hclose, ?_⟩
  obtain ⟨-, -, houtput, hsame⟩ := expand_filled {} {} .nil hsource hcomment hnames hword
  refine houtput.trans ?_
  rw [hsame hclose]
  decide +kernel

/-- The text in `div{x}>p` moves the paragraph out of the division. So it does when a group opens
behind it, or when one ends that does not close the tag. Inside a comment the text is lost. -/
theorem expand_text_moves :
    let plain : List Token := [.node "div".toList, .nest, .node ['p']]
    let output source := (Compiler.expand { indented := false } {} .nil source).output
    isSource true plain = true ∧ (∀ token ∈ plain, token.namesTag {} = true) ∧
      output (source plain) = .ok "<div><p></p></div>".toList ∧
      (fun t => (t.filled 0 ['x']).finish) <$> Traced.run [] ({} : Tables).resolver {} plain =
        .ok "<div>x<p></p></div>".toList ∧
      output "div{x}>p".toList ≠ .ok "<div>x<p></p></div>".toList ∧
      output "div{x}>p".toList = .ok "<div>x</div><p></p>".toList ∧
      output "div(p)".toList = .ok "<div><p></p></div>".toList ∧
      output "div{x}(p)".toList = .ok "<div>x</div><p></p>".toList ∧
      output "a>(^b)>p".toList = .ok "<a></a><b><p></p></b>".toList ∧
      output "a>(^b{x})>p".toList = .ok "<a></a><b>x</b><p></p>".toList ∧
      output "a[x=<!--]>b[x=-->]".toList = .ok "<a x=\"\"></a>".toList ∧
      output "a[x=<!--]{x}>b[x=-->]".toList = .ok "<a x=\"\"></a>".toList := by
  decide +kernel

end Shorthand
