import Shorthand.Proofs.Numbering
import Shorthand.Proofs.Steps

/-!
# A `+` behind a closed item

A `)`, a repeat marker and a `+` close the item before them, so a `+` that follows has nothing to
close. Whether an item is closed is read off the last fragment, and a void tag and a bare text leave
one there that seems open.

- `seemsOpen_numberFragment`: a fragment and its copies seem open alike.
- `Expansion.Repeatable`: a closed group holds a fragment. Every run keeps this up.
- `Expansion.seemsOpenAfter`: after a token, the last fragment seems open; `lastIsOpen_step` is what
  each of the three kinds of token does to it.
- `sibling_behind_closed`: a `+` behind a closed item changes nothing, unless the last fragment
  seems open and a tag is open around it.
-/

namespace Shorthand

/-! ## Copies -/

theorem seemsOpen_cons (c : Char) (t : Text) :
    seemsOpen (c :: t) = !(c == '<' && t.head? == some '/') := by
  cases t with
  | nil => simp [seemsOpen, List.isPrefixOf]
  | cons d t => simp [seemsOpen, List.isPrefixOf, Bool.beq_comm]

/-- Numbering does not change whether a fragment seems open. -/
theorem seemsOpen_numberFragment {fragment fragment' : Text} {n times : Int}
    (h : numberFragment fragment n times = .ok fragment') :
    seemsOpen fragment' = seemsOpen fragment := by
  cases fragment with
  | nil =>
    rw [numberFragment_nil] at h
    cases h
    rfl
  | cons c t =>
    by_cases hc : c = '$'
    · subst hc
      obtain ⟨d, v, rfl, hd⟩ := head_numberFragment_slot h
      have hne : d ≠ '<' := by
        rintro rfl
        exact absurd hd (by decide)
      simp [seemsOpen_cons, hne]
    · obtain ⟨u, hu, rfl⟩ := numberFragment_cons_eq_ok hc h
      rw [seemsOpen_cons, seemsOpen_cons, head?_numberFragment hu (by decide)]

namespace Expansion

/-- What stands last in the copies of a template seems open if it does so in the template. -/
theorem any_seemsOpen_copies {template fragments : List Text} {times : Nat} (hne : template ≠ [])
    (h : copies template (times + 1) = .ok fragments) (before : List Text) :
    (before ++ fragments).getLast?.any seemsOpen = template.getLast?.any seemsOpen := by
  obtain ⟨start, last, rfl⟩ := (List.eq_nil_or_concat' template).resolve_left hne
  obtain ⟨copied, last', rfl, hlast⟩ := copies_concat h
  rw [← List.append_assoc, List.getLast?_concat, List.getLast?_concat]
  exact seemsOpen_numberFragment hlast

/-! ## Closed groups -/

/-- The last closed group holds a fragment to repeat. -/
def Repeatable (e : Expansion) : Prop :=
  ∀ g ∈ e.lastGroup, g.fragments ≠ []

variable {attributes : Table} {resolver : Resolver} {e e' : Expansion} {token : Token}

theorem ne_nil_of_groupFrom {result : List Text} {start : Nat} {g : ClosedGroup}
    (h : groupFrom result start = some g) : g.fragments ≠ [] := by
  unfold groupFrom at h
  split at h
  · cases h
  · rename_i hne
    cases h
    rintro hnil
    exact hne (List.isEmpty_iff.2 hnil)

theorem Repeatable.step (h : e.Repeatable) (hstep : step attributes resolver e token = .ok e') :
    e'.Repeatable := by
  cases token with
  | node text =>
    rcases writeNode_eq_ok hstep with ⟨-, rfl⟩ | ⟨-, tag, -, rfl⟩ <;> exact fun g hg => by cases hg
  | times marker =>
    rcases repeatLast_eq_ok hstep with ⟨-, rfl⟩ | ⟨template, rest, fragments, htake, -, rfl⟩
    · exact h
    · intro g hg
      rw [lastGroup_takeTemplate htake] at hg
      cases hg
  | _ =>
    rw [step_operator rfl, Except.ok.injEq] at hstep
    subst hstep
    intro g hg
    simp only at hg
    split at hg
    · exact ne_nil_of_groupFrom hg
    · exact h g hg

theorem Repeatable.run (h : e.Repeatable) {tokens : List Token}
    (hrun : run attributes resolver e tokens = .ok e') : e'.Repeatable := by
  induction tokens generalizing e with
  | nil =>
    cases hrun
    exact h
  | cons token tokens ih =>
    obtain ⟨e₁, hstep, hrun⟩ := bind_eq_ok hrun
    exact ih (h.step hstep) hrun

/-! ## What seems open after a token -/

/-- After the token, the last fragment seems open. An operator leaves the last fragment as it was if
it closes no tag, or void tags only. A repeat marker leaves a copy of what ends the last closed
group, or for no times what stood before the item; after a repeated node, nothing seems open. -/
def seemsOpenAfter (e : Expansion) : Token → Bool
  | .times marker =>
    if digitsValue (marker.takeWhile isDigit) = 0 then e.takeTemplate.any (·.2.lastIsOpen)
    else e.lastGroup.any (·.fragments.getLast?.any seemsOpen)
  | token => e.lastIsOpen && (e.openTags.take (e.closeCount token)).all isVoid

theorem seemsOpenAfter_operator (h : token.isOperator = true) : e.seemsOpenAfter token =
    (e.lastIsOpen && (e.openTags.take (e.closeCount token)).all isVoid) := by
  cases token with
  | times marker => cases h
  | node text => cases h
  | _ => rfl

theorem lastIsOpen_operator (h : token.isOperator = true)
    (hstep : step attributes resolver e token = .ok e') :
    e'.lastIsOpen = e.seemsOpenAfter token := by
  rw [step_operator h, Except.ok.injEq] at hstep
  rw [lastIsOpen_eq, seemsOpenAfter_operator h, lastIsOpen_eq, ← hstep]
  exact any_seemsOpen_append_closings _ _

/-- The template of a repeat marker has an end, which seems open only in a closed group. -/
theorem Repeatable.takeTemplate (h : e.Repeatable) {template : List Text} {rest : Expansion}
    (htake : e.takeTemplate = some (template, rest)) :
    template ≠ [] ∧ template.getLast?.any seemsOpen =
      e.lastGroup.any (·.fragments.getLast?.any seemsOpen) := by
  rcases takeTemplate_eq_some htake with ⟨g, hg, rfl, -⟩ | ⟨hnone, before, last, -, rfl, -⟩
  · rw [hg]
    exact ⟨h g hg, rfl⟩
  · -- the template of a node ends with the closing fragment of its tag, or an empty one
    refine ⟨List.cons_ne_nil _ _, ?_⟩
    rw [hnone]
    cases e.openTags with
    | nil => rfl
    | cons tag openTags => exact seemsOpen_closingFragment tag

theorem Repeatable.lastIsOpen_times (h : e.Repeatable) {marker : Text}
    (hstep : Expansion.step attributes resolver e (.times marker) = .ok e') :
    e'.lastIsOpen = e.seemsOpenAfter (.times marker) := by
  rw [seemsOpenAfter]
  rcases repeatLast_eq_ok hstep with ⟨hnone, rfl⟩ | ⟨template, rest, fragments, htake, hcopies, rfl⟩
  · obtain ⟨hgroup, hempty⟩ := takeTemplate_eq_none.1 hnone
    simp [hnone, hgroup, lastIsOpen_eq, hempty]
  · obtain ⟨hne, htemplate⟩ := h.takeTemplate htake
    cases htimes : digitsValue (marker.takeWhile isDigit) with
    | zero =>
      rw [htimes, copies_zero, Except.ok.injEq] at hcopies
      rw [if_pos rfl, htake, ← hcopies, List.append_nil]
      rfl
    | succ times =>
      rw [htimes] at hcopies
      rw [if_neg (Nat.succ_ne_zero times), ← htemplate, lastIsOpen_eq]
      exact any_seemsOpen_copies hne hcopies rest.result

/-- What stands last after a token that is no node. -/
theorem Repeatable.lastIsOpen_step (h : e.Repeatable) (hnode : token.isNode = false)
    (hstep : Expansion.step attributes resolver e token = .ok e') :
    e'.lastIsOpen = e.seemsOpenAfter token := by
  cases token with
  | node text => cases hnode
  | times marker => exact h.lastIsOpen_times hstep
  | _ => exact lastIsOpen_operator rfl hstep

theorem closeLast_eq_self (h : e.openTags = [] ∨ e.lastIsOpen = false) : e.closeLast = e := by
  unfold closeLast closeTag
  rcases h with h | h <;> simp [h]

/-- A `+` leaves the fragments and the open tags as they are exactly if it leaves everything so: if
no tag is open, or the last fragment does not seem open. -/
theorem closeLast_unchanged_iff : (e.closeLast.result = e.result ∧
    e.closeLast.openTags = e.openTags) ↔ e.openTags = [] ∨ e.lastIsOpen = false := by
  have hlength := length_openTags_closeTags e.openCount e
  rw [← closeLast_eq] at hlength
  refine ⟨fun ⟨_, htags⟩ => ?_, fun h => ?_⟩
  · rw [htags, openCount] at hlength
    cases hopen : e.lastIsOpen with
    | false => exact .inr rfl
    | true =>
      rw [hopen, if_pos rfl] at hlength
      exact .inl (List.eq_nil_of_length_eq_zero (by omega))
  · rw [closeLast_eq_self h]
    exact ⟨rfl, rfl⟩

end Expansion

open Expansion

/-- **A `+` behind a closed item changes nothing**, and may be left out, exactly if no tag is open
around the item or the last fragment does not seem open. -/
theorem sibling_behind_closed {attributes : Table} {resolver : Resolver} {tokens : List Token}
    {last : Token} {e e' : Expansion}
    (hlast : last = .closeGroup ∨ last.isTimes = true ∨ last = .sibling)
    (hrun : run attributes resolver {} tokens = .ok e)
    (hstep : step attributes resolver e last = .ok e') :
    ((∃ e'', step attributes resolver e' .sibling = .ok e'' ∧
        e''.result = e'.result ∧ e''.openTags = e'.openTags) ↔
      e'.openTags = [] ∨ e.seemsOpenAfter last = false) ∧
    (e'.openTags = [] ∨ e.seemsOpenAfter last = false → ∀ rest,
      run attributes resolver {} (tokens ++ last :: .sibling :: rest) =
        run attributes resolver {} (tokens ++ last :: rest)) := by
  have hrepeatable : e.Repeatable := Repeatable.run (fun g hg => by cases hg) hrun
  have hnode : last.isNode = false := by
    rcases hlast with rfl | hlast | rfl
    · rfl
    · cases last with
      | times marker => rfl
      | _ => cases hlast
    · rfl
  rw [← hrepeatable.lastIsOpen_step hnode hstep, ← closeLast_unchanged_iff]
  refine ⟨⟨?_, fun h => ⟨_, rfl, h⟩⟩, fun h rest => ?_⟩
  · rintro ⟨e'', hsibling, h⟩
    cases hsibling
    exact h
  · have hsame := closeLast_eq_self (closeLast_unchanged_iff.1 h)
    rw [run_append, run_append, hrun, ok_bind, ok_bind, run_cons, run_cons, hstep, ok_bind, ok_bind,
      run_cons, step, hsame, ok_bind]

/-- `ul>(li$>a)*2+` -/
theorem sibling_behind_closed_repeated_group :
    let tokens : List Token := [.node "ul".toList, .nest, .openGroup, .node "li$".toList, .nest,
      .node ['a'], .closeGroup]
    let group := ["<li$>".toList, "<a>".toList, "</a>".toList, "</li$>".toList]
    let e : Expansion :=
      { result := "<ul>".toList :: group, openTags := ["ul".toList], lastGroup := some ⟨1, group⟩ }
    let e' : Expansion :=
      { result := ["<ul>".toList, "<li0>".toList, "<a>".toList, "</a>".toList, "</li0>".toList,
          "<li1>".toList, "<a>".toList, "</a>".toList, "</li1>".toList]
        openTags := ["ul".toList] }
    run [] ({} : Tables).resolver {} tokens = .ok e ∧
      step [] ({} : Tables).resolver e (.times ['2']) = .ok e' ∧
      ∃ e'', step [] ({} : Tables).resolver e' .sibling = .ok e'' ∧
        e''.result = e'.result ∧ e''.openTags = e'.openTags := by
  intro tokens group e e'
  have hrun : run [] ({} : Tables).resolver {} tokens = .ok e := by decide +kernel
  have hstep : step [] ({} : Tables).resolver e (.times ['2']) = .ok e' := by decide +kernel
  have hclosed : e.seemsOpenAfter (.times ['2']) = false := by decide +kernel
  exact ⟨hrun, hstep, (sibling_behind_closed (.inr (.inl rfl)) hrun hstep).1.2 (.inr hclosed)⟩

/-- `div>(br)+`, `div>br++`, `div>p*0+` and `div>({t})+`: the last `+` closes the `div` around the
closed item -/
theorem sibling_behind_closed_climbs :
    let after tokens := openTags <$> run [] ({} : Tables).resolver {} tokens
    let inside (tokens : List Token) := .node "div".toList :: .nest :: tokens
    let group text := inside [.openGroup, .node text, .closeGroup]
    let void := inside [.node "br".toList, .sibling]
    let none := inside [.node ['p'], .times ['0']]
    (after (group "br".toList) = .ok ["div".toList] ∧
      after (group "br".toList ++ [.sibling]) = .ok []) ∧
    (after void = .ok ["div".toList] ∧ after (void ++ [.sibling]) = .ok []) ∧
    (after none = .ok ["div".toList] ∧ after (none ++ [.sibling]) = .ok []) ∧
    after (group "{t}".toList) = .ok ["div".toList] ∧
      after (group "{t}".toList ++ [.sibling]) = .ok [] := by
  decide +kernel

end Shorthand
