import Mathlib.Data.List.Induction
import Shorthand.Proofs.Steps

/-!
# What a group leaves open

A `)` closes tags until as many are open as at its `(`. It does not look which tags these are.

- `OpenTag`: an open tag with the place of the node that opened it, which tells it from all others.
  `openTagsAfter` are those after a list of tokens.
- `Expansion.openTags_step`: what one token does to the open tags; `followTags_induction` carries
  what every token keeps up through a run.
- `Dated`: the followed tags are the open ones, each opened later than the one outside of it.
- `StillOpen`: of the tags that were open at some time, the outer ones are still open, and the tags
  opened since are inside of them.
- `open_behind_group`: behind a group, only tags from before it are open, unless the group has
  closed one of these and a tag of its own has taken the place.
-/

namespace Shorthand

/-! ## Groups among the tokens -/

/-- The tokens close every group that they open, and `depth` groups that were open before them. -/
def closesGroups (depth : Nat) : List Token → Bool
  | [] => depth == 0
  | .openGroup :: tokens => closesGroups (depth + 1) tokens
  | .closeGroup :: tokens => depth != 0 && closesGroups (depth - 1) tokens
  | _ :: tokens => closesGroups depth tokens

/-- An open tag. -/
structure OpenTag where
  /-- The number of tokens before the node that opened it. -/
  opened : Nat
  name : Text
  deriving DecidableEq, Repr

namespace Expansion

variable {attributes : Table} {resolver : Resolver} {e e' : Expansion} {token : Token}
  {tokens : List Token} {tags : List OpenTag} {now : Nat}

/-- Behind tokens that close the groups they open, the groups before them are open. -/
theorem groups_run {depth : Nat} (h : closesGroups depth tokens = true)
    (hrun : run attributes resolver e tokens = .ok e') : e'.groups = e.groups.drop depth := by
  induction tokens generalizing e depth with
  | nil =>
    cases hrun
    rw [eq_of_beq h, List.drop_zero]
  | cons token tokens ih =>
    obtain ⟨e₁, hstep, hrest⟩ := bind_eq_ok hrun
    have hgroups : e₁.groups = e.groupsAfter token := groups_step hstep
    cases token with
    | openGroup => rw [ih h hrest, hgroups, groupsAfter, List.drop_succ_cons]
    | closeGroup =>
      simp only [closesGroups, Bool.and_eq_true, bne_iff_ne, ne_eq] at h
      obtain ⟨outer, rfl⟩ := Nat.exists_eq_succ_of_ne_zero h.1
      rw [ih h.2 hrest, hgroups, groupsAfter, Nat.succ_sub_one, List.drop_tail]
    | climb | nest | sibling | times marker | node text =>
      rw [ih h hrest, hgroups]
      rfl

/-! ## Open tags -/

/-- How many tags a token closes. A repeat marker closes the tag of the node that it repeats. -/
def closedBy (e : Expansion) : Token → Nat
  | .node _ => 0
  | .times _ => if e.lastGroup.isNone && !e.result.isEmpty then 1 else 0
  | token => e.closeCount token

/-- The token is a node that opens a tag. -/
def opensTag (attributes : Table) : Token → Bool
  | .node text => !(Node.parse attributes text).isText
  | _ => false

/-- **What one token does to the open tags**: it opens one, or closes some of the innermost. -/
theorem openTags_step (h : step attributes resolver e token = .ok e') :
    (opensTag attributes token = true ∧ ∃ name, e'.openTags = name :: e.openTags) ∨
      (opensTag attributes token = false ∧ e'.openTags = e.openTags.drop (e.closedBy token)) := by
  cases token with
  | node text =>
    rcases writeNode_eq_ok h with ⟨htext, rfl⟩ | ⟨htext, tag, -, rfl⟩
    · exact .inr ⟨by simp [opensTag, htext], rfl⟩
    · exact .inl ⟨by simp [opensTag, htext], tag.name, rfl⟩
  | times marker =>
    refine .inr ⟨rfl, ?_⟩
    rcases repeatLast_eq_ok h with ⟨hnone, rfl⟩ | ⟨template, rest, fragments, htake, -, rfl⟩
    · simp [closedBy, takeTemplate_eq_none.1 hnone]
    · rcases takeTemplate_eq_some htake with ⟨group, hgroup, -, rfl⟩ |
        ⟨hnone, before, last, hresult, -, rfl⟩
      · simp [closedBy, hgroup]
      · simp [closedBy, hnone, hresult]
  | climb | nest | sibling | openGroup | closeGroup =>
    rw [step_operator rfl, Except.ok.injEq] at h
    exact .inr ⟨rfl, by rw [← h]; rfl⟩

/-- The open tags after a token that leads from `e` to `e'`. -/
def tagsAfter (attributes : Table) (e e' : Expansion) (tags : List OpenTag) (now : Nat)
    (token : Token) : List OpenTag :=
  if opensTag attributes token then ⟨now, e'.openTags.headD []⟩ :: tags
  else tags.drop (e.closedBy token)

/-- The open tags after a list of tokens, up to the first fault. Before them `tags` are open, and
`now` tokens have been read. -/
def followTags (attributes : Table) (resolver : Resolver) (e : Expansion) (tags : List OpenTag)
    (now : Nat) : List Token → List OpenTag
  | [] => tags
  | token :: tokens =>
    match step attributes resolver e token with
    | .error _ => tags
    | .ok e' =>
      followTags attributes resolver e' (tagsAfter attributes e e' tags now token) (now + 1) tokens

theorem followTags_cons (h : step attributes resolver e token = .ok e') :
    followTags attributes resolver e tags now (token :: tokens) =
      followTags attributes resolver e' (tagsAfter attributes e e' tags now token) (now + 1)
        tokens := by
  rw [followTags, h]

theorem followTags_append (hrun : run attributes resolver e tokens = .ok e')
    (more : List Token) :
    followTags attributes resolver e tags now (tokens ++ more) =
      followTags attributes resolver e' (followTags attributes resolver e tags now tokens)
        (now + tokens.length) more := by
  induction tokens generalizing e tags now with
  | nil =>
    cases hrun
    rfl
  | cons token tokens ih =>
    obtain ⟨e₁, hstep, hrest⟩ := bind_eq_ok hrun
    rw [List.cons_append, followTags_cons hstep, followTags_cons hstep, ih hrest, List.length_cons,
      Nat.add_assoc, Nat.add_comm 1]

/-- What every token keeps up holds after a run. -/
theorem followTags_induction {P : Nat → List OpenTag → Expansion → Prop}
    (hstep : ∀ {now tags e e' token}, P now tags e → step attributes resolver e token = .ok e' →
      P (now + 1) (tagsAfter attributes e e' tags now token) e')
    (h : P now tags e) (hrun : run attributes resolver e tokens = .ok e') :
    P (now + tokens.length) (followTags attributes resolver e tags now tokens) e' := by
  induction tokens generalizing e tags now with
  | nil =>
    cases hrun
    exact h
  | cons token tokens ih =>
    obtain ⟨e₁, htoken, hrest⟩ := bind_eq_ok hrun
    rw [followTags_cons htoken, List.length_cons, Nat.add_comm tokens.length, ← Nat.add_assoc]
    exact ih (hstep h htoken) hrest

/-! ## Dates -/

/-- The tags are the open ones of `e`, after `now` tokens. -/
structure Dated (now : Nat) (tags : List OpenTag) (e : Expansion) : Prop where
  names : tags.map OpenTag.name = e.openTags
  /-- An inner tag was opened later. -/
  inner : tags.Pairwise fun tag outer => outer.opened < tag.opened
  past : ∀ tag ∈ tags, tag.opened < now

theorem Dated.step (h : Dated now tags e)
    (hstep : Expansion.step attributes resolver e token = .ok e') :
    Dated (now + 1) (tagsAfter attributes e e' tags now token) e' := by
  rcases openTags_step hstep with ⟨hopens, name, htags⟩ | ⟨hopens, htags⟩
  · rw [tagsAfter, if_pos hopens, htags]
    refine ⟨?_, List.pairwise_cons.2 ⟨h.past, h.inner⟩, List.forall_mem_cons.2 ⟨?_, ?_⟩⟩
    · rw [List.map_cons, h.names, htags, List.headD_cons]
    · exact Nat.lt_succ_self now
    · exact fun tag htag => Nat.lt_succ_of_lt (h.past tag htag)
  · rw [tagsAfter, if_neg (by simp [hopens])]
    refine ⟨?_, h.inner.sublist (List.drop_sublist _ _), fun tag htag => ?_⟩
    · rw [List.map_drop, h.names, htags]
    · exact Nat.lt_succ_of_lt (h.past tag (List.mem_of_mem_drop htag))

/-- Of the tags `start`, which were open after `since` tokens, the outer ones are still open, and
all tags inside of them have been opened since. -/
def StillOpen (since : Nat) (start tags : List OpenTag) : Prop :=
  ∃ opened kept, tags = opened ++ kept ∧ kept <:+ start ∧ ∀ tag ∈ opened, since ≤ tag.opened

theorem StillOpen.step {since : Nat} {start : List OpenTag} (h : StillOpen since start tags)
    (hnow : since ≤ now) :
    StillOpen since start (tagsAfter attributes e e' tags now token) := by
  obtain ⟨opened, kept, rfl, hkept, hopened⟩ := h
  unfold tagsAfter
  split
  · exact ⟨_ :: opened, kept, rfl, hkept, List.forall_mem_cons.2 ⟨hnow, hopened⟩⟩
  · refine ⟨_, _, List.drop_append, (List.drop_suffix _ _).trans hkept, fun tag htag => ?_⟩
    exact hopened tag (List.mem_of_mem_drop htag)

/-- As many of the innermost tags closed that as many as at the start are left, only tags from the
start are left, unless a tag opened since has taken the place of one of them. -/
theorem StillOpen.drop_iff {since : Nat} {start : List OpenTag} (h : StillOpen since start tags)
    (hpast : ∀ tag ∈ start, tag.opened < since) :
    (∀ tag ∈ tags.drop (tags.length - start.length), tag ∈ start) ↔
      start <:+ tags ∨ ∀ tag ∈ tags, tag ∈ start := by
  constructor
  · intro hall
    obtain ⟨opened, kept, rfl, hkept, hopened⟩ := h
    by_cases hlength : kept.length = start.length
    · left
      rw [← hkept.eq_of_length hlength]
      exact List.suffix_append opened kept
    · right
      have hshort : kept.length < start.length := lt_of_le_of_ne hkept.length_le hlength
      cases opened using List.reverseRecOn with
      | nil => exact fun tag htag => hkept.subset htag
      | append_singleton opened tag =>
        -- fewer tags are closed than were opened since, so the first of these is left
        have hcount : (opened ++ [tag] ++ kept).length - start.length ≤ opened.length := by
          simp only [List.length_append, List.length_singleton]
          omega
        have hmem : tag ∈ (opened ++ [tag] ++ kept).drop
            ((opened ++ [tag] ++ kept).length - start.length) := by
          rw [List.append_assoc] at hcount ⊢
          rw [List.drop_append_of_le_length hcount]
          simp
        have hearly := hpast tag (hall tag hmem)
        have hlate := hopened tag (by simp)
        omega
  · rintro (hsuffix | hall)
    · rw [← List.suffix_iff_eq_drop.1 hsuffix]
      exact fun tag htag => htag
    · exact fun tag htag => hall tag (List.mem_of_mem_drop htag)

end Expansion

open Expansion

/-- The open tags after a list of tokens, up to the first fault, innermost first. -/
def openTagsAfter (attributes : Table) (resolver : Resolver) (tokens : List Token) : List OpenTag :=
  followTags attributes resolver {} [] 0 tokens

variable {attributes : Table} {resolver : Resolver} {tokens inside : List Token} {e e' : Expansion}

theorem dated_openTagsAfter (hrun : run attributes resolver {} tokens = .ok e) :
    Dated tokens.length (openTagsAfter attributes resolver tokens) e := by
  have hstart : Dated 0 [] {} := ⟨rfl, .nil, nofun⟩
  have h := followTags_induction (P := Dated) (fun h => h.step) hstart hrun
  rwa [Nat.zero_add] at h

/-- Whatever follows, the outer ones of the open tags stay open below those opened since. -/
theorem stillOpen_openTagsAfter (hrun : run attributes resolver {} tokens = .ok e)
    (hinside : run attributes resolver e inside = .ok e') :
    StillOpen tokens.length (openTagsAfter attributes resolver tokens)
      (openTagsAfter attributes resolver (tokens ++ inside)) := by
  have h := followTags_induction
    (P := fun now tags _ => tokens.length ≤ now ∧
      StillOpen tokens.length (openTagsAfter attributes resolver tokens) tags)
    (fun h _ => ⟨Nat.le_succ_of_le h.1, h.2.step h.1⟩) ⟨le_rfl, [], _, rfl, List.suffix_rfl, nofun⟩
    hinside
  rw [openTagsAfter.eq_def attributes resolver (tokens ++ inside), followTags_append hrun,
    Nat.zero_add]
  exact h.2

/-! ## Behind a group -/

/-- The `)` of a group closes tags until as many are open as at its `(`, whichever they are. -/
theorem openTagsAfter_closeGroup {before : List Token} (hinside : closesGroups 0 inside = true)
    (hrun : run attributes resolver {} (before ++ .openGroup :: inside) = .ok e) :
    let start := openTagsAfter attributes resolver before
    let inner := openTagsAfter attributes resolver (before ++ .openGroup :: inside)
    openTagsAfter attributes resolver (before ++ .openGroup :: inside ++ [.closeGroup]) =
      inner.drop (inner.length - start.length) := by
  intro start inner
  obtain ⟨e₀, hbefore, hafter⟩ := bind_eq_ok ((run_append before _).symm.trans hrun)
  have hstart : start.length = e₀.openTags.length := by
    rw [← (dated_openTagsAfter hbefore).names, List.length_map]
  have hinner : inner.length = e.openTags.length := by
    rw [← (dated_openTagsAfter hrun).names, List.length_map]
  have hgroups : e.groups = ⟨e₀.result.length, e₀.openTags.length⟩ :: e₀.groups :=
    groups_run hinside hafter
  have hcount : e.closedBy .closeGroup = inner.length - start.length := by
    rw [hstart, hinner]
    show e.openTags.length - (e.groups.headD ⟨0, 0⟩).depth = _
    rw [hgroups, List.headD_cons]
  rw [← hcount, openTagsAfter, followTags_append hrun]
  rfl

/-- **What a group leaves open.** Each tag that is open behind a group was open at its `(`, unless
one of those has been closed inside of the group and a tag opened since is still open at the `)`. -/
theorem open_behind_group {before : List Token} (hinside : closesGroups 0 inside = true)
    (hrun : run attributes resolver {} (before ++ .openGroup :: inside ++ [.closeGroup]) = .ok e) :
    let start := openTagsAfter attributes resolver before
    let inner := openTagsAfter attributes resolver (before ++ .openGroup :: inside)
    let behind :=
      openTagsAfter attributes resolver (before ++ .openGroup :: inside ++ [.closeGroup])
    behind.map OpenTag.name = e.openTags ∧
      (behind.Pairwise fun tag outer => outer.opened < tag.opened) ∧
      behind = inner.drop (inner.length - start.length) ∧
      ((∀ tag ∈ behind, tag ∈ start) ↔ start <:+ inner ∨ ∀ tag ∈ inner, tag ∈ start) := by
  intro start inner behind
  obtain ⟨e₁, hbefore, -⟩ := bind_eq_ok ((run_append _ [.closeGroup]).symm.trans hrun)
  obtain ⟨e₀, hfirst, hrest⟩ := bind_eq_ok ((run_append before _).symm.trans hbefore)
  have hdated := dated_openTagsAfter hrun
  have hbehind : behind = inner.drop (inner.length - start.length) :=
    openTagsAfter_closeGroup hinside hbefore
  refine ⟨hdated.names, hdated.inner, hbehind, ?_⟩
  rw [hbehind]
  exact (stillOpen_openTagsAfter hfirst hrest).drop_iff (dated_openTagsAfter hfirst).past

/-- `ul>(li>(a+b)*2>i)`: the `li` and the `i` are closed by the `)`, and the `ul` stays open. -/
theorem open_behind_group_nested :
    let before : List Token := [.node "ul".toList, .nest]
    let inside : List Token := [.node "li".toList, .nest, .openGroup, .node ['a'], .sibling,
      .node ['b'], .closeGroup, .times ['2'], .nest, .node ['i']]
    let tags := openTagsAfter [] ({} : Tables).resolver
    let pair := ["<a>".toList, "</a>".toList, "<b>".toList, "</b>".toList]
    let group := "<li>".toList :: pair ++ pair ++ ["<i>".toList, "</i>".toList, "</li>".toList]
    let e : Expansion :=
      { result := "<ul>".toList :: group, openTags := ["ul".toList], lastGroup := some ⟨1, group⟩ }
    closesGroups 0 inside = true ∧
      run [] ({} : Tables).resolver {} (before ++ .openGroup :: inside ++ [.closeGroup]) = .ok e ∧
      (tags (before ++ .openGroup :: inside)).length = 3 ∧
      ∀ tag ∈ tags (before ++ .openGroup :: inside ++ [.closeGroup]), tag ∈ tags before := by
  intro before inside tags pair group e
  have hinside : closesGroups 0 inside = true := by decide +kernel
  have hrun : run [] ({} : Tables).resolver {} (before ++ .openGroup :: inside ++ [.closeGroup]) =
      .ok e := by decide +kernel
  have hsuffix : tags before <:+ tags (before ++ .openGroup :: inside) := by decide +kernel
  obtain ⟨-, -, -, hbehind⟩ := open_behind_group hinside hrun
  exact ⟨hinside, hrun, by decide +kernel, hbehind.2 (.inl hsuffix)⟩

/-- `div>({x}+p)q`: the `+` closes the `div`, and the `p` takes its place and stays open behind the
group, where the `q` gets into it. -/
theorem open_behind_group_replaced :
    let before : List Token := [.node "div".toList, .nest]
    let inside : List Token := [.node "{x}".toList, .sibling, .sibling, .node ['p']]
    let tags := openTagsAfter [] ({} : Tables).resolver
    let tokens := before ++ .openGroup :: inside ++ [.closeGroup]
    tokenize "div>({x}+p)q".toList = tokens ++ [.node ['q']] ∧
      closesGroups 0 inside = true ∧
      tags before = [⟨0, "div".toList⟩] ∧ tags tokens = [⟨6, ['p']⟩] ∧
      run [] ({} : Tables).resolver {} tokens =
        .ok { result := ["<div>".toList, ['x'], "</div>".toList, "<p>".toList]
              openTags := [['p']]
              lastGroup := some ⟨1, [['x'], "</div>".toList, "<p>".toList]⟩ } ∧
      expandTokens [] ({} : Tables).resolver (tokens ++ [.node ['q']]) =
        .ok "<div>x</div><p><q></q></p>".toList := by
  decide +kernel

end Shorthand
