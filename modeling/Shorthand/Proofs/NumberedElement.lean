import Shorthand.Proofs.Repetition
import Shorthand.Proofs.Roles

/-!
# One name in both fragments

Numbering works on the parts of a fragment apart, so the name of a repeated element is the same in
its opening and its closing fragment.

- `numberFragment_append_eq_ok`, `numberFragment_append_fails_iff`: when numbering two parts
  together succeeds, and with what.
- `numberedElement`: the two fragments of a copy, whose name is numbered once.
  `mapM_numberFragment_element`: numbering both fragments by themselves comes to that.
- `Expansion.copies_element`, `Expansion.run_element_times`: the copies that a repeat marker makes.
- `numbering_local`: both parts together.
-/

namespace Shorthand

open Expansion

variable {n times : Int}

/-! ## Parts of a fragment -/

section Parts

variable {a b : Text} (hb : Unglued b)
include hb

theorem numberFragment_append_eq_ok {t : Text} :
    numberFragment (a ++ b) n times = .ok t ↔
      ∃ a' b', numberFragment a n times = .ok a' ∧ numberFragment b n times = .ok b' ∧
        t = a' ++ b' := by
  rw [numberFragment_append hb]
  constructor
  · intro h
    obtain ⟨a', ha', h⟩ := bind_eq_ok h
    obtain ⟨b', hb', h⟩ := bind_eq_ok h
    cases h
    exact ⟨a', b', ha', hb', rfl⟩
  · rintro ⟨a', b', ha', hb', rfl⟩
    rw [ha', hb']
    rfl

theorem numberFragment_append_fails_iff :
    (∃ fault, numberFragment (a ++ b) n times = .error fault) ↔
      (∃ fault, numberFragment a n times = .error fault) ∨
        ∃ fault, numberFragment b n times = .error fault := by
  rw [numberFragment_append hb]
  cases numberFragment a n times with
  | error fault => simp
  | ok a' => cases numberFragment b n times <;> simp [pure, Except.pure]

end Parts

/-! ## The two fragments of an element -/

/-- The opening and the closing fragment of an element in copy `n` among `times`. Its name is
numbered once. -/
def numberedElement (tag : TagName) (node : Node) (n times : Int) : Except Fault (List Text) := do
  let name ← numberFragment tag.name n times
  let rest ← numberFragment (afterName tag node) n times
  return ['<' :: (name ++ rest), closingFragment name]

variable {tag : TagName} {name : Text}

theorem numberFragment_openingFragment (h : Unglued tag.extension) (node : Node) :
    numberFragment (openingFragment tag node) n times = do
      let name ← numberFragment tag.name n times
      let rest ← numberFragment (afterName tag node) n times
      return '<' :: (name ++ rest) := by
  rw [openingFragment_eq, numberFragment_cons (by decide),
    numberFragment_append (unglued_afterName h node)]
  simp

/-- A closing fragment closes the numbered name. -/
theorem numberFragment_closingFragment_of_ok (h : numberFragment tag.name n times = .ok name) :
    numberFragment (closingFragment tag.name) n times = .ok (closingFragment name) := by
  have hsame := isVoid_numberFragment h
  cases hv : isVoid tag.name with
  | true =>
    rw [closingFragment, if_pos hv, closingFragment, if_pos (hsame.trans hv), numberFragment_nil]
  | false =>
    rw [closingFragment_of_not_void hv, closingFragment_of_not_void (hsame.trans hv),
      numberFragment_cons (by decide), numberFragment_cons (by decide),
      numberFragment_append (unglued_cons.2 (by decide)), h,
      numberFragment_of_not_mem (t := ['>']) (by decide)]
    rfl

/-- Both fragments of an element, numbered by themselves, have one numbered name. -/
theorem mapM_numberFragment_element (h : Unglued tag.extension) (node : Node) (n times : Int) :
    [openingFragment tag node, closingFragment tag.name].mapM (numberFragment · n times) =
      numberedElement tag node n times := by
  rw [List.mapM_cons, List.mapM_cons, List.mapM_nil, numberFragment_openingFragment h,
    numberedElement]
  cases hname : numberFragment tag.name n times with
  | error fault => rfl
  | ok name =>
    rw [numberFragment_closingFragment_of_ok hname]
    cases numberFragment (afterName tag node) n times <;> rfl

/-! ## Repeated elements -/

theorem Expansion.copies_element (h : Unglued tag.extension) (node : Node) (times : Nat) :
    copies [openingFragment tag node, closingFragment tag.name] times =
      List.flatten <$> (List.range times).mapM fun (n : Nat) =>
        numberedElement tag node n times := by
  simp only [copies, mapM_numberFragment_element h]
  rfl

/-- A repeat marker behind an element leaves the copies of its two fragments, each with its numbered
name, and the open tags as they were before the element. -/
theorem Expansion.run_element_times {attributes : Table} {resolver : Resolver} {e : Expansion}
    {text : Text} (htext : (Node.parse attributes text).isText = false)
    (htag : resolver (Node.parse attributes text).tag e.openTags e.result = .ok tag)
    (h : Unglued tag.extension) (marker : Text) :
    run attributes resolver e [.node text, .times marker] = do
      let times ← readNumeral (marker.takeWhile isDigit)
      let elements ← (List.range times).mapM fun (n : Nat) =>
        numberedElement tag (Node.parse attributes text) n times
      return { e with result := e.result ++ elements.flatten, lastGroup := none } := by
  have hwrite : writeNode attributes resolver e text = .ok
      ⟨e.result ++ [openingFragment tag (Node.parse attributes text)], tag.name :: e.openTags,
        e.groups, none⟩ := by
    simp only [writeNode, htext, Bool.false_eq_true, if_false, htag]
    rfl
  rw [run_cons, step, hwrite, ok_bind, run_singleton, step, repeats_concat]
  refine bind_congr_ok fun times _ => ?_
  simp only [List.head?_cons, Option.map_some, Option.getD_some, copies_element h]
  cases (List.range times).mapM fun (n : Nat) =>
    numberedElement tag (Node.parse attributes text) n times <;> rfl

/-- **Numbering is local.** Before a text whose first character continues no placeholder, numbering
works on both parts apart, and fails exactly when it fails on one of them. So when an extension is
empty or starts with a space, or with any other character that continues no placeholder, the
numbered opening fragment starts with `<` and the name that the numbered closing fragment closes;
and such are the two fragments in each copy of a repeated element. -/
theorem numbering_local :
    (∀ a b : Text, Unglued b → ∀ n times : Int,
      (∀ t, numberFragment (a ++ b) n times = .ok t ↔
        ∃ a' b', numberFragment a n times = .ok a' ∧ numberFragment b n times = .ok b' ∧
          t = a' ++ b') ∧
      ((∃ fault, numberFragment (a ++ b) n times = .error fault) ↔
        (∃ fault, numberFragment a n times = .error fault) ∨
          ∃ fault, numberFragment b n times = .error fault)) ∧
    (∀ (tag : TagName) (node : Node), Unglued tag.extension → ∀ (n times : Int) (opening : Text),
      numberFragment (openingFragment tag node) n times = .ok opening →
      ∃ name rest, numberFragment tag.name n times = .ok name ∧ opening = '<' :: (name ++ rest) ∧
        numberFragment (closingFragment tag.name) n times = .ok (closingFragment name)) ∧
    ∀ (attributes : Table) (resolver : Resolver) (e : Expansion) (text marker : Text)
      (tag : TagName), let node := Node.parse attributes text
      node.isText = false → resolver node.tag e.openTags e.result = .ok tag →
      Unglued tag.extension →
      run attributes resolver e [.node text, .times marker] = do
        let times ← readNumeral (marker.takeWhile isDigit)
        let elements ← (List.range times).mapM fun (n : Nat) => numberedElement tag node n times
        return { e with result := e.result ++ elements.flatten, lastGroup := none } := by
  refine ⟨fun a b hb n times => ?_, fun tag node h n times opening hopening => ?_, ?_⟩
  · exact ⟨fun t => numberFragment_append_eq_ok hb, numberFragment_append_fails_iff hb⟩
  · rw [numberFragment_openingFragment h] at hopening
    obtain ⟨name, hname, hopening⟩ := bind_eq_ok hopening
    obtain ⟨rest, -, hopening⟩ := bind_eq_ok hopening
    cases hopening
    exact ⟨name, rest, hname, rfl, numberFragment_closingFragment_of_ok hname⟩
  · intro attributes resolver e text marker tag node htext htag h
    exact run_element_times htext htag h marker

/-- `h$$$@.c{t$@-}*2`, where every tag has the extension ` x=$`: what follows the name counts by
itself -/
theorem numbering_local_extended :
    let resolver : Resolver := fun name _ _ => .ok { name, extension := " x=$".toList }
    let tag : TagName := ⟨"h$$$@".toList, " x=$".toList⟩
    let node := Node.parse [] "h$$$@.c{t$@-}".toList
    let name (n : Char) : Text := ['h', '0', n]
    Unglued tag.extension ∧ node.isText = false ∧
      numberFragment (tag.name ++ tag.extension) 1 2 = .ok (name '1' ++ " x=1".toList) ∧
      numberFragment (closingFragment tag.name) 1 2 = .ok (closingFragment (name '1')) ∧
      run [] resolver {} [.node "h$$$@.c{t$@-}".toList, .times ['2']] = .ok { result :=
        ['<' :: (name '0' ++ " x=0 class=\"c\">t1".toList), closingFragment (name '0'),
          '<' :: (name '1' ++ " x=1 class=\"c\">t0".toList), closingFragment (name '1')] } := by
  intro resolver tag node name
  have hplain : Unglued tag.extension := unglued_cons.2 (by decide)
  have htext : node.isText = false := by decide +kernel
  obtain ⟨hparts, hboth, hrun⟩ := numbering_local
  have hname : numberFragment tag.name 1 2 = .ok (name '1') := by decide +kernel
  have hextension : numberFragment tag.extension 1 2 = .ok " x=1".toList := by decide +kernel
  have hopening : numberFragment (openingFragment tag node) 1 2 =
      .ok ('<' :: (name '1' ++ " x=1 class=\"c\">t0".toList)) := by decide +kernel
  obtain ⟨_, _, hsame, -, hclosing⟩ := hboth tag node hplain 1 2 _ hopening
  rw [hname, Except.ok.injEq] at hsame
  subst hsame
  have happend := ((hparts tag.name tag.extension hplain 1 2).1 _).2 ⟨_, _, hname, hextension, rfl⟩
  refine ⟨hplain, htext, happend, hclosing, ?_⟩
  rw [hrun [] resolver {} _ ['2'] tag htext (by decide +kernel) hplain]
  decide +kernel

end Shorthand
