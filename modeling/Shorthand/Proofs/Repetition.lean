import Mathlib.Data.List.Induction
import Shorthand.Proofs.Steps

/-!
# What a repeat marker repeats

A repeat marker takes its template from the end of the fragments and puts the copies there.

- `Expansion.Repeats`: the template of a repeat marker, and the expansion without it.
- `Expansion.SinceGroup`: what has happened since the last group was closed. The tokens behind it
  have closed tags and nothing else (`sinceGroup_of_run`).
- `repeat_removes`: a marker removes its template, and with a group the closing fragments that were
  written behind it.
- `run_repeated_node`: a repeated node leaves the open tags as they are, unless it is a bare text
  and a tag is open around it.
-/

namespace Shorthand

/-- The token leaves the last closed group for a repeat marker. -/
def Token.keepsGroup : Token → Bool
  | .climb | .nest | .sibling | .openGroup => true
  | .closeGroup | .times _ | .node _ => false

theorem Token.isOperator_of_keepsGroup {token : Token} (h : token.keepsGroup = true) :
    token.isOperator = true ∧ token ≠ .closeGroup := by
  cases token with
  | closeGroup | times _ | node _ => cases h
  | _ => exact ⟨rfl, nofun⟩

namespace Expansion

variable {attributes : Table} {resolver : Resolver} {e e' : Expansion}

/-! ## Templates -/

theorem copies_nil (times : Nat) : copies [] times = .ok [] := by
  simp only [copies, List.mapM_nil, List.mapM_pure]
  simp [pure, Except.pure]

/-- A repeat marker puts the copies of the template behind the fragments of `rest`. -/
def Repeats (e : Expansion) (template : List Text) (rest : Expansion) : Prop :=
  ∀ marker, e.repeatLast marker = do
    let times ← readNumeral (marker.takeWhile isDigit)
    return { rest with result := rest.result ++ (← copies template times) }

theorem repeats_of_takeTemplate {template : List Text} {rest : Expansion}
    (h : e.takeTemplate = some (template, rest)) : e.Repeats template rest := by
  intro marker
  rw [repeatLast, h]

/-- Before anything is written, the template is empty. -/
theorem repeats_nil (h : e.takeTemplate = none) : e.Repeats [] e := by
  intro marker
  rw [repeatLast, h]
  simp only [copies_nil, ok_bind, List.append_nil]

/-! ## Behind a closed group -/

/-- What has happened since the last group was closed by the `)` between `before` and `between`: the
tokens `between` have closed the tags `closed`. -/
structure SinceGroup (attributes : Table) (resolver : Resolver) (before between : List Token)
    (group : ClosedGroup) (closed : List Text) (e : Expansion) : Prop where
  keepsGroup : ∀ token ∈ between, token.keepsGroup = true
  atClose : ∃ e₀, run attributes resolver {} (before ++ [.closeGroup]) = .ok e₀ ∧
    e₀.lastGroup = some group ∧ e₀.openTags = closed ++ e.openTags
  result : ∃ kept, kept.length = group.start ∧
    e.result = kept ++ (group.fragments ++ closings closed)

/-- A group starts where its fragments do. -/
theorem groupFrom_eq_some {result : List Text} {start : Nat} {group : ClosedGroup}
    (h : groupFrom result start = some group) :
    ∃ kept, kept.length = group.start ∧ result = kept ++ group.fragments := by
  unfold groupFrom at h
  split at h
  · cases h
  · rename_i hne
    cases h
    have hlt : start < result.length := by simpa using hne
    exact ⟨result.take start, by simp [hlt.le], (List.take_append_drop start result).symm⟩

theorem SinceGroup.step {before between : List Token} {group : ClosedGroup} {closed : List Text}
    {token : Token} (h : SinceGroup attributes resolver before between group closed e)
    (hkeep : token.keepsGroup = true) (hstep : step attributes resolver e token = .ok e') :
    SinceGroup attributes resolver before (between ++ [token]) group
      (closed ++ e.openTags.take (e.closeCount token)) e' := by
  obtain ⟨e₀, hrun, hgroup, htags⟩ := h.atClose
  obtain ⟨kept, hkept, hresult⟩ := h.result
  rw [step_operator (Token.isOperator_of_keepsGroup hkeep).1, Except.ok.injEq] at hstep
  subst hstep
  refine ⟨?_, ⟨e₀, hrun, hgroup, ?_⟩, ⟨kept, hkept, ?_⟩⟩
  · rw [List.forall_mem_append, List.forall_mem_singleton]
    exact ⟨h.keepsGroup, hkeep⟩
  · rw [htags, List.append_assoc, List.take_append_drop]
  · rw [closedResult, hresult]
    simp

/-- While a closed group waits for a repeat marker, the tokens behind it only close tags. -/
theorem sinceGroup_of_run {tokens : List Token} {group : ClosedGroup}
    (hrun : run attributes resolver {} tokens = .ok e) (hgroup : e.lastGroup = some group) :
    ∃ before between closed, tokens = before ++ .closeGroup :: between ∧
      SinceGroup attributes resolver before between group closed e := by
  induction tokens using List.reverseRecOn generalizing e with
  | nil =>
    cases hrun
    cases hgroup
  | append_singleton tokens token ih =>
    obtain ⟨e₁, hbefore, hstep⟩ := bind_eq_ok ((run_append tokens [token]).symm.trans hrun)
    rw [run_singleton] at hstep
    cases token with
    | node text =>
      rcases writeNode_eq_ok hstep with ⟨-, rfl⟩ | ⟨-, tag, -, rfl⟩ <;> cases hgroup
    | times marker =>
      rcases repeatLast_eq_ok hstep with ⟨hnone, rfl⟩ | ⟨template, rest, fragments, htake, -, rfl⟩
      · rw [(takeTemplate_eq_none.1 hnone).1] at hgroup
        cases hgroup
      · rw [lastGroup_takeTemplate htake] at hgroup
        cases hgroup
    | closeGroup =>
      refine ⟨tokens, [], [], rfl, by simp, ⟨e, hrun, hgroup, rfl⟩, ?_⟩
      rw [step_operator rfl, Except.ok.injEq] at hstep
      subst hstep
      simpa using groupFrom_eq_some hgroup
    | climb | nest | sibling | openGroup =>
      have hsame : e.lastGroup = e₁.lastGroup := by
        rw [step_operator rfl, Except.ok.injEq] at hstep
        rw [← hstep]
        rfl
      obtain ⟨before, between, closed, rfl, hsince⟩ := ih hbefore (hsame ▸ hgroup)
      exact ⟨before, between ++ [_], _, by simp, hsince.step rfl hstep⟩

end Expansion

open Expansion

variable {attributes : Table} {resolver : Resolver} {tokens : List Token} {e : Expansion}

theorem closings_eq_nil {tags : List Text} : closings tags = [] ↔ tags.all isVoid = true := by
  simp [closings]

/-- **What a repeat marker removes.** The fragments before it end with what it removes. Without a
closed group, that is the last fragment, with which the template begins. With one, it is what the
group holds, and behind it the closing fragments of the tags that have been closed since. So it is
the template and nothing else exactly when these tags are void. -/
theorem repeat_removes (hrun : run attributes resolver {} tokens = .ok e) :
    ∃ template rest removed, e.Repeats template rest ∧ e.result = rest.result ++ removed ∧
      match e.lastGroup with
      | none => removed = e.result.getLast?.toList ∧ removed <+: template
      | some group => template = group.fragments ∧ ∃ before between closed,
          tokens = before ++ .closeGroup :: between ∧
          SinceGroup attributes resolver before between group closed e ∧
          removed = group.fragments ++ closings closed ∧
          (removed = group.fragments ↔ closed.all isVoid = true) := by
  cases hgroup : e.lastGroup with
  | none =>
    cases hlast : e.result.getLast? with
    | none =>
      have hempty : e.result = [] := List.getLast?_eq_none_iff.1 hlast
      exact ⟨[], e, [], repeats_nil (takeTemplate_eq_none.2 ⟨hgroup, hempty⟩), by simp, by simp⟩
    | some last =>
      obtain ⟨before, hbefore⟩ := List.getLast?_eq_some_iff.1 hlast
      refine ⟨_, _, [last], repeats_of_takeTemplate (by rw [takeTemplate, hgroup, hlast]), ?_, ?_⟩
      · simp [hbefore]
      · simp
  | some group =>
    obtain ⟨before, between, closed, htokens, hsince⟩ := sinceGroup_of_run hrun hgroup
    obtain ⟨kept, hkept, hresult⟩ := hsince.result
    refine ⟨_, _, group.fragments ++ closings closed,
      repeats_of_takeTemplate (by rw [takeTemplate, hgroup]), ?_, rfl, before, between, closed,
      htokens, hsince, rfl, ?_⟩
    · rw [hresult, List.take_left' hkept]
    · rw [List.append_right_eq_self, closings_eq_nil]

/-- `br>(p)^*2`: the `^` closes a void tag, for which nothing is written behind the group -/
theorem repeat_removes_group :
    let tokens : List Token := [.node "br".toList, .nest, .openGroup, .node ['p'], .closeGroup,
      .climb]
    let group : ClosedGroup := ⟨1, ["<p>".toList, "</p>".toList]⟩
    let e : Expansion := { result := "<br>".toList :: group.fragments, lastGroup := some group }
    run [] ({} : Tables).resolver {} tokens = .ok e ∧
      ∃ rest, e.Repeats group.fragments rest ∧ e.result = rest.result ++ group.fragments := by
  intro tokens group e
  have hrun : run [] ({} : Tables).resolver {} tokens = .ok e := by decide +kernel
  obtain ⟨_, rest, _, hrepeats, hresult, rfl, _, _, closed, -, hsince, rfl, -⟩ :=
    repeat_removes hrun
  obtain ⟨kept, hkept, hwhole⟩ := hsince.result
  have hlength : e.result.length = kept.length + (2 + (closings closed).length) := by
    rw [hwhole, List.length_append, List.length_append]
    rfl
  have hnone : closings closed = [] := by
    rw [← List.length_eq_zero_iff]
    have : e.result.length = 3 := rfl
    have : kept.length = 1 := hkept
    omega
  refine ⟨hrun, rest, hrepeats, ?_⟩
  rwa [hnone, List.append_nil] at hresult

/-- `div>({t})*2`: behind the closing brace a `+` is implied, which closes the `div`. The marker
removes its closing fragment together with the group. -/
theorem repeat_removes_closing :
    let before : List Token := [.node "div".toList, .nest, .openGroup, .node "{t}".toList,
      .closeGroup, .sibling]
    let group : ClosedGroup := ⟨1, [['t']]⟩
    let e : Expansion :=
      { result := ["<div>".toList, ['t'], "</div>".toList], lastGroup := some group }
    tokenize "div>({t})*2".toList = before ++ [.times ['2']] ∧
      run [] ({} : Tables).resolver {} before = .ok e ∧ ¬ group.fragments <:+ e.result ∧
      step [] ({} : Tables).resolver e (.times ['2']) =
        .ok { result := ["<div>".toList, ['t'], ['t']] } := by
  decide +kernel

/-! ## Repeated nodes -/

namespace Expansion

/-- The fragments of a node: the opening fragment of its tag and the closing one. A bare text has no
tag, and an empty fragment stands for its closing as for that of a void tag. -/
def ownFragments (attributes : Table) (resolver : Resolver) (e : Expansion) (text : Text) :
    Except Fault (List Text) := do
  let node := Node.parse attributes text
  if node.isText then return [node.content, []]
  else
    let tag ← resolver node.tag e.openTags e.result
    return [openingFragment tag node, closingFragment tag.name]

/-- Behind a node, a repeat marker repeats what the node has written, and what closes the innermost
tag. -/
theorem repeats_concat {fragments : List Text} {last : Text} {openTags : List Text}
    {groups : List GroupMark} :
    Repeats ⟨fragments ++ [last], openTags, groups, none⟩
      [last, (openTags.head?.map closingFragment).getD []]
      ⟨fragments, openTags.tail, groups, none⟩ :=
  repeats_of_takeTemplate (by simp [takeTemplate])

end Expansion

/-- **A repeated node leaves nothing but its copies**, and the open tags as they are, unless it is a
bare text and a tag is open around it. A marker behind such a text closes the innermost tag, whose
closing fragment stands behind every copy. -/
theorem run_repeated_node (hrun : run attributes resolver {} tokens = .ok e) (text marker : Text) :
    let node := Node.parse attributes text
    let repeated := run attributes resolver {} (tokens ++ [.node text, .times marker])
    (node.isText = false ∨ e.openTags = [] → repeated = do
      let own ← e.ownFragments attributes resolver text
      let times ← readNumeral (marker.takeWhile isDigit)
      return { e with result := e.result ++ (← copies own times), lastGroup := none }) ∧
    ∀ tag openTags, node.isText = true → e.openTags = tag :: openTags → repeated = do
      let times ← readNumeral (marker.takeWhile isDigit)
      return { e with
        result := e.result ++ (← copies [node.content, closingFragment tag] times)
        openTags
        lastGroup := none } := by
  intro node repeated
  have hsteps : repeated =
      writeNode attributes resolver e text >>= fun e' => e'.repeatLast marker := by
    simp only [repeated, run_append, hrun, ok_bind, run_cons, run_nil]
    exact bind_congr_ok fun e' _ => bind_pure _
  rw [hsteps]
  cases htext : node.isText with
  | false =>
    refine ⟨fun _ => ?_, fun _ _ h => by cases h⟩
    have hno : ¬node.isText = true := by simp [htext]
    simp only [writeNode, ownFragments]
    rw [if_neg hno, if_neg hno]
    cases resolver node.tag e.openTags e.result with
    | error fault => rfl
    | ok tag => exact repeats_concat marker
  | true =>
    have hwrite : writeNode attributes resolver e text =
        .ok ⟨e.result ++ [node.content], e.openTags, e.groups, none⟩ := if_pos htext
    rw [hwrite, ok_bind, repeats_concat]
    refine ⟨fun h => ?_, fun tag openTags _ h => by rw [h]; rfl⟩
    obtain h := h.resolve_left (by simp)
    simp only [ownFragments]
    rw [if_pos htext, h]
    rfl

/-- `)ul>(br+li$*2`, where one group is never opened and one never closed -/
theorem run_repeated_node_unbalanced :
    let tokens : List Token := [.closeGroup, .node "ul".toList, .nest, .openGroup,
      .node "br".toList, .sibling]
    let e : Expansion :=
      { result := ["<ul>".toList, "<br>".toList], openTags := ["ul".toList], groups := [⟨1, 1⟩] }
    run [] ({} : Tables).resolver {} tokens = .ok e ∧
      (Node.parse [] "li$".toList).isText = false ∧
      run [] ({} : Tables).resolver {} (tokens ++ [.node "li$".toList, .times ['2']]) =
        .ok { e with
          result := e.result ++
            ["<li0>".toList, "</li0>".toList, "<li1>".toList, "</li1>".toList] } := by
  intro tokens e
  have hrun : run [] ({} : Tables).resolver {} tokens = .ok e := by decide +kernel
  have htext : (Node.parse [] "li$".toList).isText = false := by decide +kernel
  refine ⟨hrun, htext, ((run_repeated_node hrun "li$".toList ['2']).1 (.inl htext)).trans ?_⟩
  decide +kernel

/-- `div>{x}*2` and `div>{x}*0`: the marker closes the `div`, behind every copy or behind none -/
theorem repeated_text_closes_tag :
    let after marker := run [] ({} : Tables).resolver {}
      ([.node "div".toList, .nest] ++ [.node "{x}".toList, .times marker])
    run [] ({} : Tables).resolver {} [.node "div".toList, .nest] =
        .ok { result := ["<div>".toList], openTags := ["div".toList] } ∧
      after ['2'] = .ok
        { result := ["<div>".toList, ['x'], "</div>".toList, ['x'], "</div>".toList] } ∧
      after ['0'] = .ok { result := ["<div>".toList] } := by
  decide +kernel

end Shorthand
