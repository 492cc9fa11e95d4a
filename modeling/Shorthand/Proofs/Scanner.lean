import Mathlib.Data.List.Induction
import Shorthand.Token

/-!
# The scanner

What the scanner does is described once here, for one character and for a text.

- `Scanner.step_cases`: all that reading one character can do.
- `depthAfter`: the depth after a text.
- `Scanner.after`, `Scanner.completed`: the scanner after a text, and the lexemes complete by then;
  `Scanner.scan_append` scans a text in two parts.
-/

namespace Shorthand

/-! ## Depth -/

theorem Depth.eq_of_isTop {d : Depth} (h : d.isTop = true) : d = {} := by
  obtain ⟨braces, brackets⟩ := d
  simp_all [Depth.isTop]

/-- An operator leaves the depth as it is. -/
theorem Depth.after_operator {c : Char} {op : Token} (h : Token.operator? c = some op) (d : Depth) :
    d.after c = d := by
  unfold Depth.after
  split
  all_goals first | rfl | cases h

@[simp] theorem Depth.after_star (d : Depth) : d.after '*' = d := rfl

theorem Depth.foldl_after_eq_self {d : Depth} {t : Text} (h : ∀ c ∈ t, d.after c = d) :
    t.foldl Depth.after d = d := by
  induction t with
  | nil => rfl
  | cons c t ih =>
    rw [List.foldl_cons, h c List.mem_cons_self, ih fun e he => h e (List.mem_cons_of_mem c he)]

/-- The depth after a text that is read from the top level on. -/
def depthAfter (t : Text) : Depth :=
  t.foldl Depth.after {}

@[simp] theorem depthAfter_nil : depthAfter [] = {} := rfl

theorem depthAfter_append (s t : Text) :
    depthAfter (s ++ t) = t.foldl Depth.after (depthAfter s) := by
  rw [depthAfter, List.foldl_append]
  rfl

theorem depthAfter_concat (t : Text) (c : Char) : depthAfter (t ++ [c]) = (depthAfter t).after c := by
  rw [depthAfter, List.foldl_append]
  rfl

namespace Scanner

/-! ## One character -/

/-- All that reading a character can do. At the top level, an operator and `*` end the pending
literal, and a closing brace that leads there is its last character. Any other character is
pending. -/
theorem step_cases (s : Scanner) (c : Char) :
    (∃ op, Token.operator? c = some op ∧ s.depth.isTop = true ∧
      s.step c = (s.flush ++ { token := op } :: s.impliedSibling c, {})) ∨
    (c = '*' ∧ s.depth.isTop = true ∧ s.step c = (s.flush, ⟨{}, ['*'], false⟩)) ∨
    (c = '}' ∧ (s.depth.after c).isTop = true ∧
      s.step c = ({ token := Token.literal (s.pending.reverse ++ ['}']) } :: s.impliedSibling c,
        ⟨{}, [], true⟩)) ∨
    ((Token.operator? c).isSome = true ∨ c = '*' → s.depth.isTop = false) ∧
      (c = '}' → (s.depth.after c).isTop = false) ∧
      s.step c = (s.impliedSibling c, ⟨s.depth.after c, c :: s.pending, c == '}'⟩) := by
  cases htop : (s.depth.after c).isTop with
  | false =>
    refine .inr (.inr (.inr ⟨fun h => ?_, fun _ => rfl, by simp [step, htop]⟩))
    rcases h with h | rfl
    · obtain ⟨op, hop⟩ := Option.isSome_iff_exists.1 h
      rwa [Depth.after_operator hop] at htop
    · exact htop
  | true =>
    cases hop : Token.operator? c with
    | some op =>
      have hb : (c == '}') = false := by
        rw [beq_eq_false_iff_ne]
        rintro rfl
        cases hop
      refine .inl ⟨op, rfl, Depth.after_operator hop s.depth ▸ htop, ?_⟩
      simp [step, hop, hb, Depth.eq_of_isTop htop, Depth.isTop]
    | none =>
      by_cases hbrace : c = '}'
      · subst hbrace
        refine .inr (.inr (.inl ⟨rfl, rfl, ?_⟩))
        simp [step, hop, Depth.eq_of_isTop htop, Depth.isTop]
      · by_cases hstar : c = '*'
        · subst hstar
          refine .inr (.inl ⟨rfl, htop, ?_⟩)
          have hd : s.depth = {} := Depth.eq_of_isTop htop
          simp [step, hop, hd, Depth.isTop]
        · refine .inr (.inr (.inr ⟨by simp [hstar], fun h => absurd h hbrace, ?_⟩))
          simp [step, htop, hop, hbrace, hstar]

theorem depth_step (s : Scanner) (c : Char) : (s.step c).2.depth = s.depth.after c := by
  simp only [step]
  repeat' split
  all_goals rfl

theorem afterBrace_step (s : Scanner) (c : Char) : (s.step c).2.afterBrace = (c == '}') := by
  simp only [step]
  repeat' split
  all_goals rfl

theorem mem_impliedSibling {s : Scanner} {c : Char} {l : Lexeme} (h : l ∈ s.impliedSibling c) :
    l = { token := .sibling, implied := true } := by
  rw [impliedSibling] at h
  split at h
  · exact List.mem_singleton.1 h
  · cases h

/-! ## The scanner after a text -/

/-- The scanner after a text. -/
def after (s : Scanner) (t : Text) : Scanner :=
  t.foldl (fun s c => (s.step c).2) s

/-- The lexemes that are complete after a text. -/
def completed (s : Scanner) : Text → List Lexeme
  | [] => []
  | c :: t => (s.step c).1 ++ completed (s.step c).2 t

theorem after_concat (s : Scanner) (t : Text) (c : Char) :
    s.after (t ++ [c]) = ((s.after t).step c).2 := by
  rw [after, List.foldl_append]
  rfl

theorem completed_concat (s : Scanner) (t : Text) (c : Char) :
    s.completed (t ++ [c]) = s.completed t ++ ((s.after t).step c).1 := by
  induction t generalizing s with
  | nil => simp [completed, after]
  | cons d t ih =>
    rw [List.cons_append, completed, ih, completed, List.append_assoc]
    rfl

theorem scan_append (s : Scanner) (t u : Text) :
    s.scan (t ++ u) = s.completed t ++ (s.after t).scan u := by
  induction t generalizing s with
  | nil => rfl
  | cons c t ih =>
    rw [List.cons_append, scan, ih, completed, List.append_assoc]
    rfl

/-- The lexemes of a text are those that are complete after it and the pending literal. -/
theorem scan_eq (s : Scanner) (t : Text) : s.scan t = s.completed t ++ (s.after t).flush := by
  simpa [scan] using scan_append s t []

theorem depth_after_eq_foldl (s : Scanner) (t : Text) :
    (s.after t).depth = t.foldl Depth.after s.depth := by
  induction t generalizing s with
  | nil => rfl
  | cons d t ih =>
    rw [after, List.foldl_cons, ← after, ih, depth_step, List.foldl_cons]

theorem depth_after (t : Text) : (after {} t).depth = depthAfter t :=
  depth_after_eq_foldl {} t

theorem afterBrace_after (t : Text) : (after {} t).afterBrace = (t.getLast? == some '}') := by
  induction t using List.reverseRecOn with
  | nil => rfl
  | append_singleton t c _ => rw [after_concat, afterBrace_step, List.getLast?_concat]; rfl

/-- After a text, the scanner knows its depth, its last character and what is pending. -/
theorem after_eq (t : Text) :
    after {} t = ⟨depthAfter t, (after {} t).pending, t.getLast? == some '}'⟩ := by
  rw [← depth_after, ← afterBrace_after]

end Scanner

end Shorthand
