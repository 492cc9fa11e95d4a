import Shorthand.Proofs.Element
import Shorthand.Proofs.Limit
import Shorthand.Proofs.Numbering

/-!
# Abbreviation trees

The grammar of abbreviations and the fragments that a tree stands for, by recursion on the tree.

- `Abbreviation`, `Level`, `Item`: the trees. A `Level` ends at the depth at which it starts, so that
  `^` may follow it.
- `Abbreviation.tokens`: a tree as it is written.
- `Abbreviation.fragments`: the markup of a tree under given open tags.
- `expandTokens_tree`: expanding the tokens of a tree writes the fragments of the tree, and fails
  where these do.
-/

namespace Shorthand

open Expansion

/-! ## Trees -/

/-- A repeat marker that asks for at least one copy. -/
structure Repeat where
  marker : Text
  pos : 0 < digitsValue (marker.takeWhile isDigit)

/-- The marker that asks for `n` copies. -/
def Repeat.ofNat (n : Nat) (h : 0 < n) : Repeat where
  marker := decimalDigits n
  pos := by rwa [takeWhile_decimalDigits, digitsValue_decimalDigits]

mutual

/-- Nodes and groups below, beside and above one another. -/
inductive Abbreviation
  | item (i : Item)
  /-- `i + rest` -/
  | beside (i : Item) (rest : Abbreviation)
  /-- `t > inside` -/
  | nest (t : Element) (inside : Abbreviation)
  /-- `t > inside ^ rest` -/
  | around (t : Element) (inside : Level) (rest : Abbreviation)

/-- An abbreviation that ends at the depth at which it starts. -/
inductive Level
  | item (i : Item)
  | beside (i : Item) (rest : Level)
  | around (t : Element) (inside : Level) (rest : Level)

/-- A node or a group, once or several times. -/
inductive Item
  | node (t : Element)
  | nodes (t : Element) (n : Repeat)
  | group (s : Abbreviation)
  | groups (s : Abbreviation) (n : Repeat)

end

/-! ## Tokens -/

mutual

/-- The tokens that a tree is written with. -/
def Abbreviation.tokens : Abbreviation → List Token
  | .item i => i.tokens
  | .beside i rest => i.tokens ++ .sibling :: rest.tokens
  | .nest t inside => .node t.text :: .nest :: inside.tokens
  | .around t inside rest => .node t.text :: .nest :: (inside.tokens ++ .climb :: rest.tokens)

def Level.tokens : Level → List Token
  | .item i => i.tokens
  | .beside i rest => i.tokens ++ .sibling :: rest.tokens
  | .around t inside rest => .node t.text :: .nest :: (inside.tokens ++ .climb :: rest.tokens)

def Item.tokens : Item → List Token
  | .node t => [.node t.text]
  | .nodes t n => [.node t.text, .times n.marker]
  | .group s => .openGroup :: (s.tokens ++ [.closeGroup])
  | .groups s n => .openGroup :: (s.tokens ++ [.closeGroup, .times n.marker])

end

/-! ## Fragments -/

/-- The copies of fragments that a repeat marker asks for. -/
def Repeat.copies (n : Repeat) (fragments : List Text) : Except Fault (List Text) := do
  let times ← readNumeral (n.marker.takeWhile isDigit)
  Expansion.copies fragments times

section Fragments

variable (attributes : Table) (resolver : Resolver)

mutual

/-- The markup of a tree under the open tags `p`, in fragments. -/
def Abbreviation.fragments (p : List Text) : Abbreviation → Except Fault (List Text)
  | .item i => i.fragments p
  | .beside i rest => do
    let first ← i.fragments p
    let rest ← rest.fragments p
    return first ++ rest
  | .nest t inside => do
    let tag ← t.tag attributes resolver p
    let inside ← inside.fragments (tag.name :: p)
    return t.opening attributes tag :: (inside ++ [closingFragment tag.name])
  | .around t inside rest => do
    let tag ← t.tag attributes resolver p
    let inside ← inside.fragments (tag.name :: p)
    let rest ← rest.fragments p
    return t.opening attributes tag :: (inside ++ closingFragment tag.name :: rest)

def Level.fragments (p : List Text) : Level → Except Fault (List Text)
  | .item i => i.fragments p
  | .beside i rest => do
    let first ← i.fragments p
    let rest ← rest.fragments p
    return first ++ rest
  | .around t inside rest => do
    let tag ← t.tag attributes resolver p
    let inside ← inside.fragments (tag.name :: p)
    let rest ← rest.fragments p
    return t.opening attributes tag :: (inside ++ closingFragment tag.name :: rest)

def Item.fragments (p : List Text) : Item → Except Fault (List Text)
  | .node t => do
    let tag ← t.tag attributes resolver p
    return [t.opening attributes tag, closingFragment tag.name]
  | .nodes t n => do
    let tag ← t.tag attributes resolver p
    n.copies [t.opening attributes tag, closingFragment tag.name]
  | .group s => s.fragments p
  | .groups s n => do
    let fragments ← s.fragments p
    n.copies fragments

end

end Fragments

/-! ## Fragments that end closed -/

/-- The last fragment is a closing one. -/
def EndsClosed (fragments : List Text) : Prop :=
  ∃ first name, fragments = first ++ ['<' :: '/' :: name]

theorem EndsClosed.append_left {fragments : List Text} (h : EndsClosed fragments)
    (first : List Text) : EndsClosed (first ++ fragments) := by
  obtain ⟨init, name, rfl⟩ := h
  exact ⟨first ++ init, name, by simp⟩

theorem TagName.Ordinary.endsClosed {tag : TagName} (h : tag.Ordinary) (first : List Text) :
    EndsClosed (first ++ [closingFragment tag.name]) :=
  ⟨first, tag.name ++ ['>'], by rw [closingFragment_of_not_void h.not_void]⟩

theorem EndsClosed.ne_nil {fragments : List Text} (h : EndsClosed fragments) : fragments ≠ [] := by
  obtain ⟨first, name, rfl⟩ := h
  simp

theorem EndsClosed.openCount {e : Expansion} (h : EndsClosed e.result) : e.openCount = 0 := by
  obtain ⟨first, name, h⟩ := h
  simp [Expansion.openCount, lastIsOpen, h]

/-- Copies of fragments that end closed end closed. -/
theorem EndsClosed.copies {fragments copies : List Text} {times : Nat} (h : EndsClosed fragments)
    (hpos : 0 < times) (hcopies : Expansion.copies fragments times = .ok copies) :
    EndsClosed copies := by
  obtain ⟨k, rfl⟩ : ∃ k, times = k + 1 := ⟨times - 1, by omega⟩
  obtain ⟨first, name, rfl⟩ := h
  obtain ⟨before, closing, rfl, hclosing⟩ := copies_concat hcopies
  obtain ⟨u, hu, rfl⟩ := numberFragment_cons_eq_ok (by decide) hclosing
  obtain ⟨v, -, rfl⟩ := numberFragment_cons_eq_ok (by decide) hu
  exact ⟨before, v, rfl⟩

/-! ## Running the tokens of a tree -/

/-- A run from `e` to `e'` leaves the groups as they were and ends, in the given way, with the
fragments written behind those of `e`. -/
structure Wrote (Ends : Expansion → List Text → List Text → Prop) (e e' : Expansion)
    (fragments : List Text) : Prop where
  ends : Ends e' e.openTags (e.result ++ fragments)
  groups : e'.groups = e.groups
  closed : EndsClosed fragments

section Run

variable {attributes : Table} {resolver : Resolver}

theorem Wrote.closesTo {e e' : Expansion} {fragments : List Text}
    (h : Wrote EndsAt e e' fragments) : Wrote ClosesTo e e' fragments :=
  ⟨h.ends.closesTo, h.groups, h.closed⟩

/-- After a part that has written `first`, the rest goes on behind it. -/
theorem Wrote.after {Ends : Expansion → List Text → List Text → Prop} {e e₁ e₂ : Expansion}
    {first rest : List Text} (h : Wrote Ends e₁ e₂ rest) (hp : e₁.openTags = e.openTags)
    (hr : e₁.result = e.result ++ first) (hg : e₁.groups = e.groups) :
    Wrote Ends e e₂ (first ++ rest) := by
  refine ⟨?_, h.groups.trans hg, h.closed.append_left first⟩
  have := h.ends
  rwa [hp, hr, List.append_assoc] at this

/-- A repeat marker writes the copies of its template. -/
theorem step_repeat {e rest : Expansion} {template : List Text}
    (h : e.takeTemplate = some (template, rest)) (hc : EndsClosed template) (n : Repeat) :
    Agree (fun e' copies => e' = { rest with result := rest.result ++ copies } ∧ EndsClosed copies)
      (step attributes resolver e (.times n.marker)) (n.copies template) := by
  simp only [step, repeatLast, h, Repeat.copies]
  cases ht : readNumeral (n.marker.takeWhile isDigit) with
  | error f => rfl
  | ok times =>
    have hpos : 0 < times := readNumeral_eq_ok ht ▸ n.pos
    simp only [ok_bind]
    cases hcopies : Expansion.copies template times with
    | error f => rfl
    | ok copies => exact ⟨rfl, hc.copies hpos hcopies⟩

/-- A group is closed with the fragments written in it, which may be repeated. -/
theorem closeGroup_eq {e e' : Expansion} {fragments : List Text}
    (h : Wrote ClosesTo { e with groups := ⟨e.result.length, e.openTags.length⟩ :: e.groups }
      e' fragments) :
    e'.closeGroup =
      { e with
        result := e.result ++ fragments
        lastGroup := some ⟨e.result.length, fragments⟩ } := by
  have hc := h.ends.closeTags
  have hg := h.groups
  simp only at hc hg
  simp [closeGroup, hg, hc, h.closed.ne_nil]

/-- The result of an element that is not closed yet. -/
theorem wrote_element {tag : TagName} (h : tag.Ordinary) (t : Element) (e : Expansion) :
    Wrote EndsAt e (e.withElement attributes tag t)
      [t.opening attributes tag, closingFragment tag.name] := by
  refine ⟨⟨[tag.name], rfl, ?_, openCount_withElement h e t⟩, rfl, h.endsClosed [_]⟩
  simp [withElement, closings_singleton h.not_void]

/-- A result that ends closed. -/
theorem wrote_closed {e e' : Expansion} {fragments : List Text} (h : EndsClosed fragments)
    (hp : e'.openTags = e.openTags) (hr : e'.result = e.result ++ fragments)
    (hg : e'.groups = e.groups) : Wrote EndsAt e e' fragments := by
  refine ⟨⟨[], hp, by simpa using hr, ?_⟩, hg, h⟩
  exact EndsClosed.openCount (hr ▸ h.append_left e.result)

theorem takeTemplate_withElement {tag : TagName} (t : Element) (e : Expansion) :
    (e.withElement attributes tag t).takeTemplate =
      some ([t.opening attributes tag, closingFragment tag.name], { e with lastGroup := none }) := by
  simp [takeTemplate, withElement]

variable {Ends : Expansion → List Text → List Text → Prop} {ts us : List Token}
  {f g : List Text → Except Fault (List Text)}

theorem takeTemplate_group (e : Expansion) (fragments : List Text) :
    takeTemplate
        { e with
          result := e.result ++ fragments
          lastGroup := some ⟨e.result.length, fragments⟩ } =
      some (fragments, { e with lastGroup := none }) := by
  simp [takeTemplate]

/-- A group closes everything that is open in it, and may be repeated. -/
theorem run_group
    (hinside : ∀ e, Agree (Wrote ClosesTo e) (run attributes resolver e ts) (f e.openTags))
    (e : Expansion) :
    Agree
      (fun e' fragments =>
        e' =
            { e with
              result := e.result ++ fragments
              lastGroup := some ⟨e.result.length, fragments⟩ } ∧
          EndsClosed fragments)
      (run attributes resolver e (.openGroup :: (ts ++ [.closeGroup]))) (f e.openTags) := by
  rw [run_cons, step, ok_bind, run_append]
  have hinside := hinside { e with groups := ⟨e.result.length, e.openTags.length⟩ :: e.groups }
  rw [← bind_pure (f e.openTags)]
  refine hinside.bind fun e₁ fragments h => ?_
  rw [run_singleton, step, closeGroup_eq h]
  exact ⟨rfl, h.closed⟩

/-- A part that ends at its own level, and another beside it. -/
theorem run_beside
    (hfirst : ∀ e, Agree (Wrote EndsAt e) (run attributes resolver e us) (f e.openTags))
    (hrest : ∀ e, Agree (Wrote Ends e) (run attributes resolver e ts) (g e.openTags))
    (e : Expansion) :
    Agree (Wrote Ends e) (run attributes resolver e (us ++ .sibling :: ts))
      (do
        let first ← f e.openTags
        let rest ← g e.openTags
        return first ++ rest) := by
  rw [run_append]
  refine (hfirst e).bind fun e₁ first h₁ => ?_
  rw [run_cons, step_sibling, ok_bind, h₁.ends.closeTags]
  refine (hrest _).bind_pure fun e₂ rest h₂ => ?_
  exact h₂.after rfl rfl h₁.groups

/-- An element around a part that ends at its own level, and another part beside the element. -/
theorem run_around (hr : resolver.ByContext) (t : Element)
    (hinside : ∀ e, Agree (Wrote EndsAt e) (run attributes resolver e us) (f e.openTags))
    (hrest : ∀ e, Agree (Wrote Ends e) (run attributes resolver e ts) (g e.openTags))
    (e : Expansion) :
    Agree (Wrote Ends e)
      (run attributes resolver e (.node t.text :: .nest :: (us ++ .climb :: ts)))
      (do
        let tag ← t.tag attributes resolver e.openTags
        let inside ← f (tag.name :: e.openTags)
        let rest ← g e.openTags
        return t.opening attributes tag :: (inside ++ closingFragment tag.name :: rest)) := by
  rw [run_cons]
  refine (step_element hr attributes e t).bind fun e₁ tag h => ?_
  obtain ⟨rfl, htag⟩ := h
  rw [run_cons, step, ok_bind, run_append]
  refine (hinside _).bind fun e₂ inside h₂ => ?_
  have hends : e₂.EndsAt (tag.name :: e.openTags) _ := h₂.ends
  rw [run_cons, step_climb, ok_bind, hends.climb]
  refine (hrest _).bind_pure fun e₃ rest h₃ => ?_
  have hwritten : e.result ++ [t.opening attributes tag] ++ inside ++ closings [tag.name] =
      e.result ++ (t.opening attributes tag :: (inside ++ [closingFragment tag.name])) := by
    simp [closings_singleton htag.not_void]
  simpa using h₃.after (e := e) rfl hwritten h₂.groups

mutual

theorem Abbreviation.run_tokens (hr : resolver.ByContext) (s : Abbreviation) (e : Expansion) :
    Agree (Wrote ClosesTo e) (run attributes resolver e s.tokens)
      (s.fragments attributes resolver e.openTags) := by
  cases s with
  | item i =>
    rw [Abbreviation.tokens, Abbreviation.fragments]
    exact (i.run_tokens hr e).mono fun _ _ h => h.closesTo
  | beside i rest =>
    rw [Abbreviation.tokens, Abbreviation.fragments]
    exact run_beside (f := fun p => i.fragments attributes resolver p)
      (g := fun p => rest.fragments attributes resolver p) (i.run_tokens hr) (rest.run_tokens hr) e
  | nest t inside =>
    rw [Abbreviation.tokens, Abbreviation.fragments, run_cons]
    refine (step_element hr attributes e t).bind fun e₁ tag h => ?_
    obtain ⟨rfl, htag⟩ := h
    rw [run_cons, step, ok_bind]
    refine (inside.run_tokens hr _).bind_pure fun e₂ inside h₂ => ?_
    have hends : e₂.ClosesTo (tag.name :: e.openTags) _ := h₂.ends
    refine ⟨?_, h₂.groups, htag.endsClosed (_ :: inside)⟩
    have := hends.pop
    rw [closings_singleton htag.not_void] at this
    simpa [withElement] using this
  | around t inside rest =>
    rw [Abbreviation.tokens, Abbreviation.fragments]
    exact run_around (f := fun p => inside.fragments attributes resolver p)
      (g := fun p => rest.fragments attributes resolver p) hr t (inside.run_tokens hr)
      (rest.run_tokens hr) e

theorem Level.run_tokens (hr : resolver.ByContext) (s : Level) (e : Expansion) :
    Agree (Wrote EndsAt e) (run attributes resolver e s.tokens)
      (s.fragments attributes resolver e.openTags) := by
  cases s with
  | item i =>
    rw [Level.tokens, Level.fragments]
    exact i.run_tokens hr e
  | beside i rest =>
    rw [Level.tokens, Level.fragments]
    exact run_beside (f := fun p => i.fragments attributes resolver p)
      (g := fun p => rest.fragments attributes resolver p) (i.run_tokens hr) (rest.run_tokens hr) e
  | around t inside rest =>
    rw [Level.tokens, Level.fragments]
    exact run_around (f := fun p => inside.fragments attributes resolver p)
      (g := fun p => rest.fragments attributes resolver p) hr t (inside.run_tokens hr)
      (rest.run_tokens hr) e

theorem Item.run_tokens (hr : resolver.ByContext) (i : Item) (e : Expansion) :
    Agree (Wrote EndsAt e) (run attributes resolver e i.tokens)
      (i.fragments attributes resolver e.openTags) := by
  cases i with
  | node t =>
    rw [Item.tokens, Item.fragments, run_cons]
    refine (step_element hr attributes e t).bind fun e₁ tag h => ?_
    obtain ⟨rfl, htag⟩ := h
    exact Agree.ok (wrote_element htag t e)
  | nodes t n =>
    rw [Item.tokens, Item.fragments, run_cons]
    refine (step_element hr attributes e t).bind fun e₁ tag h => ?_
    obtain ⟨rfl, htag⟩ := h
    have htemplate := htag.endsClosed [t.opening attributes tag]
    rw [run_singleton]
    refine (step_repeat (takeTemplate_withElement t e) htemplate n).mono fun e₂ copies h => ?_
    obtain ⟨rfl, hclosed⟩ := h
    exact wrote_closed hclosed rfl rfl rfl
  | group s =>
    rw [Item.tokens, Item.fragments]
    refine (run_group (f := fun p => s.fragments attributes resolver p) (s.run_tokens hr) e).mono
      fun e₁ fragments h => ?_
    obtain ⟨rfl, hclosed⟩ := h
    exact wrote_closed hclosed rfl rfl rfl
  | groups s n =>
    -- the marker comes when the group is closed, and repeats all that is written in it
    have htokens : (Item.groups s n).tokens =
        (.openGroup :: (s.tokens ++ [.closeGroup])) ++ [.times n.marker] := by
      simp [Item.tokens]
    rw [htokens, Item.fragments, run_append]
    refine (run_group (f := fun p => s.fragments attributes resolver p) (s.run_tokens hr) e).bind
      fun e₁ fragments h => ?_
    obtain ⟨rfl, hclosed⟩ := h
    rw [run_singleton]
    refine (step_repeat (takeTemplate_group e fragments) hclosed n).mono fun e₂ copies h => ?_
    obtain ⟨rfl, hclosed⟩ := h
    exact wrote_closed hclosed rfl rfl rfl

end

/-! ## Where a tree has no markup -/

/-- A fault of the digit limit, or one of the resolver. -/
def TreeFault (resolver : Resolver) (f : Fault) : Prop :=
  f.IsLimit ∨ ∃ tag p, resolver tag p [] = .error f

theorem Element.tag_failsIn (t : Element) (p : List Text) :
    FailsIn (TreeFault resolver) (t.tag attributes resolver p) :=
  fun _ h => .inr ⟨_, p, h⟩

theorem Repeat.copies_failsIn (n : Repeat) (fragments : List Text) :
    FailsIn (TreeFault resolver) (n.copies fragments) :=
  ((readNumeral_failsIn _).mono fun _ => .inl).bind fun times =>
    (Shorthand.copies_failsIn fragments times).mono fun _ => .inl

mutual

theorem Abbreviation.fragments_failsIn (s : Abbreviation) (p : List Text) :
    FailsIn (TreeFault resolver) (s.fragments attributes resolver p) := by
  cases s with
  | item i =>
    rw [Abbreviation.fragments]
    exact i.fragments_failsIn p
  | beside i rest =>
    rw [Abbreviation.fragments]
    exact (i.fragments_failsIn p).bind fun _ => (rest.fragments_failsIn p).bind fun _ => .pure _
  | nest t inside =>
    rw [Abbreviation.fragments]
    exact (t.tag_failsIn p).bind fun _ => (inside.fragments_failsIn _).bind fun _ => .pure _
  | around t inside rest =>
    rw [Abbreviation.fragments]
    exact (t.tag_failsIn p).bind fun _ => (inside.fragments_failsIn _).bind fun _ =>
      (rest.fragments_failsIn p).bind fun _ => .pure _

theorem Level.fragments_failsIn (s : Level) (p : List Text) :
    FailsIn (TreeFault resolver) (s.fragments attributes resolver p) := by
  cases s with
  | item i =>
    rw [Level.fragments]
    exact i.fragments_failsIn p
  | beside i rest =>
    rw [Level.fragments]
    exact (i.fragments_failsIn p).bind fun _ => (rest.fragments_failsIn p).bind fun _ => .pure _
  | around t inside rest =>
    rw [Level.fragments]
    exact (t.tag_failsIn p).bind fun _ => (inside.fragments_failsIn _).bind fun _ =>
      (rest.fragments_failsIn p).bind fun _ => .pure _

theorem Item.fragments_failsIn (i : Item) (p : List Text) :
    FailsIn (TreeFault resolver) (i.fragments attributes resolver p) := by
  cases i with
  | node t =>
    rw [Item.fragments]
    exact (t.tag_failsIn p).bind fun _ => .pure _
  | nodes t n =>
    rw [Item.fragments]
    exact (t.tag_failsIn p).bind fun _ => n.copies_failsIn _
  | group s =>
    rw [Item.fragments]
    exact s.fragments_failsIn p
  | groups s n =>
    rw [Item.fragments]
    exact (s.fragments_failsIn p).bind fun _ => n.copies_failsIn _

end

/-! ## The machine follows the tree -/

/-- **Expanding the tokens of a tree writes the fragments of the tree.** It fails where these do,
which is at the digit limit, or where the resolver fails. -/
theorem expandTokens_tree (hr : resolver.ByContext) (s : Abbreviation) :
    expandTokens attributes resolver s.tokens =
        List.flatten <$> s.fragments attributes resolver [] ∧
      FailsIn (TreeFault resolver) (s.fragments attributes resolver []) := by
  refine ⟨?_, s.fragments_failsIn []⟩
  rw [expandTokens, bind_pure_comp]
  exact (s.run_tokens hr {}).map_eq_map fun e fragments h => h.ends.finish

end Run

/-- `(a>.n$)*2+a>b^c` -/
theorem expandTokens_repeated_group :
    listTags.ByContext ∧
      expandTokens [] listTags
          (Abbreviation.beside
            (.groups
              (.nest ⟨['a'], by decide +kernel⟩
                (.item (.node ⟨['.', 'n', '$'], by decide +kernel⟩)))
              (.ofNat 2 (by decide)))
            (.around ⟨['a'], by decide +kernel⟩ (.item (.node ⟨['b'], by decide +kernel⟩))
              (.item (.node ⟨['c'], by decide +kernel⟩)))).tokens =
        .ok ("<ul><li class=\"n0\"></li></ul><ul><li class=\"n1\"></li></ul>".toList ++
          "<ul><li></li></ul><ul></ul>".toList) := by
  refine ⟨listTags_byContext, (expandTokens_tree listTags_byContext _).1.trans ?_⟩
  decide +kernel

end Shorthand
