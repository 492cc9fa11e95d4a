import Shorthand.Proofs.Closing
import Shorthand.Proofs.Numeral

/-!
# What a step does

Every token is one of three kinds, and each kind has one effect on the expansion.

- `Expansion.step_operator`: an operator closes tags and opens or closes a group.
- `Expansion.writeNode_eq_ok`: a node adds a fragment, and opens a tag unless it is a bare text.
- `Expansion.repeatLast_eq_ok`: a repeat marker replaces a template by its copies;
  `Expansion.takeTemplate_eq_some` is what a template may be.
-/

namespace Shorthand

/-- The token is neither a node nor a repeat marker. -/
def Token.isOperator : Token → Bool
  | .node _ | .times _ => false
  | _ => true

def Token.isTimes : Token → Bool
  | .times _ => true
  | _ => false

def Token.isNode : Token → Bool
  | .node _ => true
  | _ => false

namespace Expansion

/-- Where the innermost group started; a group that was never opened reaches back to the start. -/
def innermost (e : Expansion) : GroupMark :=
  e.groups.headD ⟨0, 0⟩

/-- How many tags an operator closes. -/
def closeCount (e : Expansion) : Token → Nat
  | .climb => e.openCount + 1
  | .sibling => e.openCount
  | .closeGroup => e.openTags.length - e.innermost.depth
  | _ => 0

/-- The open groups after a token. -/
def groupsAfter (e : Expansion) : Token → List GroupMark
  | .openGroup => ⟨e.result.length, e.openTags.length⟩ :: e.groups
  | .closeGroup => e.groups.tail
  | _ => e.groups

/-- The fragments from `start` on, as a closed group, if there are any. -/
def groupFrom (result : List Text) (start : Nat) : Option ClosedGroup :=
  if (result.drop start).isEmpty then none else some ⟨start, result.drop start⟩

theorem start_groupFrom {result : List Text} {start : Nat} {group : ClosedGroup}
    (h : groupFrom result start = some group) : group.start = start := by
  unfold groupFrom at h
  split at h <;> cases h
  rfl

/-- The fragments after an operator. -/
def closedResult (e : Expansion) (token : Token) : List Text :=
  e.result ++ closings (e.openTags.take (e.closeCount token))

/-- An operator closes tags and opens or closes a group. -/
theorem step_operator {attributes : Table} {resolver : Resolver} {e : Expansion} {token : Token}
    (h : token.isOperator) :
    step attributes resolver e token = .ok {
      result := e.closedResult token
      openTags := e.openTags.drop (e.closeCount token)
      groups := e.groupsAfter token
      lastGroup :=
        if token = .closeGroup then groupFrom (e.closedResult token) e.innermost.start
        else e.lastGroup } := by
  cases token with
  | climb => rw [step_climb, closeTags_eq]; rfl
  | sibling => rw [step_sibling, closeTags_eq]; rfl
  | closeGroup => rw [step, closeGroup, closeTags_eq]; rfl
  | nest | openGroup => simp [step, closedResult, closeCount, groupsAfter]
  | times marker => cases h
  | node text => cases h

/-- A node adds a fragment: a bare text as it is, any other node as an opening fragment, whose tag
is then open. -/
theorem writeNode_eq_ok {attributes : Table} {resolver : Resolver} {e e' : Expansion} {text : Text}
    (h : writeNode attributes resolver e text = .ok e') :
    let node := Node.parse attributes text
    (node.isText = true ∧ e' = { e with result := e.result ++ [node.content], lastGroup := none }) ∨
      (node.isText = false ∧ ∃ tag, resolver node.tag e.openTags e.result = .ok tag ∧
        e' = { e with
          result := e.result ++ [openingFragment tag node]
          openTags := tag.name :: e.openTags
          lastGroup := none }) := by
  simp only [writeNode] at h
  split at h
  · cases h
    exact .inl ⟨‹_›, rfl⟩
  · obtain ⟨tag, htag, h⟩ := bind_eq_ok h
    cases h
    exact .inr ⟨Bool.eq_false_iff.2 ‹_›, tag, htag, rfl⟩

/-- A token that is no repeat marker writes behind the fragments that there are. A `)` remembers
its group, and a node forgets the last one. -/
theorem step_write {attributes : Table} {resolver : Resolver} {e e' : Expansion} {token : Token}
    (ht : token.isTimes = false) (h : step attributes resolver e token = .ok e') :
    (∃ added, e'.result = e.result ++ added) ∧
      e'.lastGroup = if token = .closeGroup then groupFrom e'.result e.innermost.start
        else if token.isNode then none else e.lastGroup := by
  cases token with
  | times marker => cases ht
  | node text =>
    rcases writeNode_eq_ok h with ⟨-, rfl⟩ | ⟨-, tag, -, rfl⟩
    · exact ⟨⟨_, rfl⟩, rfl⟩
    · exact ⟨⟨_, rfl⟩, rfl⟩
  | climb | nest | sibling | openGroup | closeGroup =>
    rw [step_operator rfl, Except.ok.injEq] at h
    subst h
    exact ⟨⟨_, rfl⟩, rfl⟩

/-- There is no template exactly before anything is written. -/
theorem takeTemplate_eq_none {e : Expansion} :
    e.takeTemplate = none ↔ e.lastGroup = none ∧ e.result = [] := by
  unfold takeTemplate
  cases e.lastGroup with
  | some group => simp
  | none =>
    rw [← List.getLast?_eq_none_iff]
    cases e.result.getLast? <;> simp

/-- A template is the last closed group, or without one the last fragment with the closing fragment
of the innermost tag, which is closed. -/
theorem takeTemplate_eq_some {e rest : Expansion} {template : List Text}
    (h : e.takeTemplate = some (template, rest)) :
    (∃ group, e.lastGroup = some group ∧ template = group.fragments ∧
      rest = { e with result := e.result.take group.start, lastGroup := none }) ∨
    (e.lastGroup = none ∧ ∃ before last, e.result = before ++ [last] ∧
      template = [last, (e.openTags.head?.map closingFragment).getD []] ∧
      rest = { e with result := before, openTags := e.openTags.tail }) := by
  unfold takeTemplate at h
  split at h
  · cases h
    exact .inl ⟨_, ‹_›, rfl, rfl⟩
  · split at h
    · cases h
    · rename_i last hlast
      cases h
      obtain ⟨before, hbefore⟩ := List.getLast?_eq_some_iff.1 hlast
      exact .inr ⟨‹_›, before, last, hbefore, rfl, by rw [hbefore, List.dropLast_concat]⟩

/-- Without its template, an expansion has no group to repeat. -/
theorem lastGroup_takeTemplate {e rest : Expansion} {template : List Text}
    (h : e.takeTemplate = some (template, rest)) : rest.lastGroup = none := by
  rcases takeTemplate_eq_some h with ⟨group, -, -, rfl⟩ | ⟨hnone, before, last, -, -, rfl⟩
  · rfl
  · exact hnone

/-- A repeat marker puts the copies of the template in its place. -/
theorem repeatLast_eq_ok {e e' : Expansion} {marker : Text} (h : e.repeatLast marker = .ok e') :
    (e.takeTemplate = none ∧ e' = e) ∨
      ∃ template rest fragments, e.takeTemplate = some (template, rest) ∧
        copies template (digitsValue (marker.takeWhile isDigit)) = .ok fragments ∧
        e' = { rest with result := rest.result ++ fragments } := by
  obtain ⟨times, htimes, h⟩ := bind_eq_ok h
  obtain rfl := readNumeral_eq_ok htimes
  split at h
  · cases h
    exact .inl ⟨‹_›, rfl⟩
  · obtain ⟨fragments, hfragments, h⟩ := bind_eq_ok h
    cases h
    exact .inr ⟨_, _, fragments, ‹_›, hfragments, rfl⟩

/-- The open groups after a token. -/
theorem groups_step {attributes : Table} {resolver : Resolver} {e e' : Expansion} {token : Token}
    (h : step attributes resolver e token = .ok e') : e'.groups = e.groupsAfter token := by
  cases token with
  | node text => rcases writeNode_eq_ok h with ⟨-, rfl⟩ | ⟨-, tag, -, rfl⟩ <;> rfl
  | times marker =>
    rcases repeatLast_eq_ok h with ⟨-, rfl⟩ | ⟨template, rest, fragments, htake, -, rfl⟩
    · rfl
    · rcases takeTemplate_eq_some htake with ⟨_, -, -, rfl⟩ | ⟨-, _, _, -, -, rfl⟩ <;> rfl
  | _ =>
    rw [step_operator rfl, Except.ok.injEq] at h
    rw [← h]

end Expansion

end Shorthand
