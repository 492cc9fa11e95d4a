import Mathlib.Data.List.Infix
import Shorthand.Proofs.Content
import Shorthand.Proofs.DigitRuns
import Shorthand.Proofs.Literals
import Shorthand.Proofs.Numbering

/-!
# Where attributes end and text begins

A node may have attributes in brackets and a text in braces behind them.

- `BalancedBraces`: no brace of a text closes one outside of it.
- `isLiteral_braces`: a balanced text in braces ends a literal.
- `Part.scan_bracket`: a bracket of a node reaches to the last `]`.
- `parse_bracketed_iff`: the scanner has the attributes end before the text; so does the reading of
  the node, exactly if the text has no `]`.
-/

namespace Shorthand

variable {t b c : Text}

/-! ## Balanced braces -/

/-- The braces of a text are balanced: as many close as open, and none closes before it is open. -/
structure BalancedBraces (t : Text) : Prop where
  count_eq : t.count '}' = t.count '{'
  count_le : ∀ p, p <+: t → p.count '}' ≤ p.count '{'

instance (t : Text) : Decidable (BalancedBraces t) :=
  decidable_of_iff (t.count '}' = t.count '{' ∧ ∀ p ∈ t.inits, p.count '}' ≤ p.count '{')
    ⟨fun h => ⟨h.1, fun p hp => h.2 p ((List.mem_inits p t).2 hp)⟩,
      fun h => ⟨h.count_eq, fun p hp => h.count_le p ((List.mem_inits p t).1 hp)⟩⟩

theorem Depth.after_in_braces {n : Nat} {c : Char} (hopen : c ≠ '{') (hclose : c ≠ '}') :
    after ⟨n + 1, 0⟩ c = ⟨n + 1, 0⟩ := by
  unfold after
  split <;> simp_all

theorem Depth.after_in_brackets {c : Char} (hopen : c ≠ '[') (hclose : c ≠ ']') :
    after ⟨0, 1⟩ c = ⟨0, 1⟩ := by
  unfold after
  split <;> simp_all

/-- Inside braces, the depth counts those that a text opens and closes. -/
theorem Depth.foldl_after_braces {n : Nat} {t : Text}
    (h : ∀ p, p <+: t → p.count '}' ≤ n + p.count '{') :
    t.foldl Depth.after ⟨n + 1, 0⟩ = ⟨n + t.count '{' - t.count '}' + 1, 0⟩ := by
  induction t generalizing n with
  | nil => rfl
  | cons c t ih =>
    have hrest : ∀ p, p <+: t → (c :: p).count '}' ≤ n + (c :: p).count '{' :=
      fun p hp => h (c :: p) (List.cons_prefix_cons.2 ⟨rfl, hp⟩)
    rw [List.foldl_cons]
    by_cases hopen : c = '{'
    · subst hopen
      have hstep : Depth.after ⟨n + 1, 0⟩ '{' = ⟨(n + 1) + 1, 0⟩ := rfl
      simp only [List.count_cons_self, List.count_cons_of_ne (show '{' ≠ '}' by decide)] at hrest ⊢
      rw [hstep, ih fun p hp => by have := hrest p hp; omega]
      congr 2
      omega
    by_cases hclose : c = '}'
    · subst hclose
      simp only [List.count_cons_self, List.count_cons_of_ne (show '}' ≠ '{' by decide)] at hrest ⊢
      have hpos : 1 ≤ n := by simpa using hrest [] List.nil_prefix
      obtain ⟨n, rfl⟩ := Nat.exists_eq_add_of_le' hpos
      have hstep : Depth.after ⟨n + 1 + 1, 0⟩ '}' = ⟨n + 1, 0⟩ := rfl
      rw [hstep, ih fun p hp => by have := hrest p hp; omega]
      congr 2
      omega
    · simp only [List.count_cons_of_ne hopen, List.count_cons_of_ne hclose] at hrest ⊢
      rw [after_in_braces hopen hclose, ih hrest]

/-- All of a balanced text in braces is inside of them, and no bracket in it is open. -/
theorem BalancedBraces.depthAfter_prefix (h : BalancedBraces c) {a p : Text}
    (ha : depthAfter a = {}) (hp : p <+: c) : ∃ n, depthAfter (a ++ '{' :: p) = ⟨n + 1, 0⟩ := by
  have hopen : depthAfter (a ++ ['{']) = ⟨0 + 1, 0⟩ := by
    rw [depthAfter_concat, ha]
    rfl
  rw [List.append_cons, depthAfter_append, hopen, Depth.foldl_after_braces fun q hq => by
    simpa using h.count_le q (hq.trans hp)]
  exact ⟨_, rfl⟩

/-- A text without brackets stays inside of the brackets around it. -/
theorem Depth.foldl_after_bracket (hopen : '[' ∉ b) (hclose : ']' ∉ b) :
    b.foldl Depth.after ⟨0, 1⟩ = ⟨0, 1⟩ :=
  foldl_after_eq_self fun _ hc =>
    after_in_brackets (ne_of_mem_of_not_mem hc hopen) (ne_of_mem_of_not_mem hc hclose)

/-! ## Literals -/

theorem Placed.of_plain {before behind : Text} {c : Char} (hop : Token.operator? c = none)
    (hstar : c ≠ '*') (hbrace : c ≠ '}') : Placed before c behind :=
  ⟨fun h => by simp [hop] at h, fun h => absurd h hstar, fun h => absurd h hbrace⟩

theorem Placed.of_inside {before behind : Text} {c : Char}
    (hbefore : (depthAfter before).isTop = false)
    (hafter : (depthAfter (before ++ [c])).isTop = false) : Placed before c behind := by
  refine ⟨fun _ => hbefore, fun _ htop => ?_, fun _ htop => ?_⟩
  · rw [hbefore] at htop
    cases htop
  · rw [hafter] at htop
    cases htop

/-- What the text begins with is the start of a literal however it goes on. -/
def StartsLiteral (t : Text) : Prop :=
  ∀ before c rest, t = before ++ c :: rest → ∀ behind, Placed before c behind

theorem append_eq_append_cons {α : Type} {a b before behind : List α} {x : α}
    (h : a ++ b = before ++ x :: behind) :
    (∃ rest, a = before ++ x :: rest) ∨ ∃ rest, before = a ++ rest ∧ b = rest ++ x :: behind := by
  rcases List.append_eq_append_iff.1 h with ⟨rest, rfl, hb⟩ | ⟨rest, rfl, hb⟩
  · exact .inr ⟨rest, rfl, hb⟩
  · cases rest with
    | nil => exact .inr ⟨[], by simp, by simpa using hb.symm⟩
    | cons y rest =>
      obtain ⟨rfl, rfl⟩ := List.cons.inj hb
      exact .inl ⟨rest, rfl⟩

/-- A region behind the start of a literal. Of its characters only the last may come to the top
level, all others are in their places however it goes on. -/
theorem placed_region {a inner before behind : Text} {first last x : Char} (ha : StartsLiteral a)
    (hfirst : ∀ behind, Placed a first behind)
    (hinside : ∀ p, p <+: inner → (depthAfter (a ++ first :: p)).isTop = false)
    (hsplit : a ++ first :: (inner ++ [last]) = before ++ x :: behind) :
    (x = last ∧ behind = []) ∨ ∀ behind', Placed before x behind' := by
  rcases append_eq_append_cons hsplit with ⟨rest, hrest⟩ | ⟨rest, rfl, hrest⟩
  · exact .inr (ha before x rest hrest)
  cases rest with
  | nil =>
    obtain ⟨rfl, -⟩ := List.cons.inj hrest
    exact .inr (by simpa using hfirst)
  | cons y rest =>
    obtain ⟨rfl, htail⟩ : first = y ∧ inner ++ [last] = rest ++ x :: behind := List.cons.inj hrest
    obtain ⟨-, rfl, rfl⟩ | ⟨rest', -, rfl⟩ := concat_eq_append_cons htail
    · exact .inl ⟨rfl, rfl⟩
    · have hafter := hinside (rest ++ [x]) ⟨rest', by simp⟩
      refine .inr fun _ => .of_inside (hinside rest (List.prefix_append _ _)) ?_
      simpa using hafter

/-- A balanced text in braces behind the start of a literal is its end. -/
theorem isLiteral_braces {a : Text} (ha : StartsLiteral a) (htop : depthAfter a = {})
    (hc : BalancedBraces c) : IsLiteral (a ++ '{' :: (c ++ ['}'])) := by
  intro before x behind hsplit
  have hinside : ∀ p, p <+: c → (depthAfter (a ++ '{' :: p)).isTop = false := by
    intro p hp
    obtain ⟨n, hn⟩ := hc.depthAfter_prefix htop hp
    rw [hn]
    rfl
  have hfirst : ∀ behind, Placed a '{' behind := fun _ => .of_plain rfl (by decide) (by decide)
  rcases placed_region ha hfirst hinside hsplit with ⟨rfl, rfl⟩ | h
  · exact ⟨fun hop => absurd hop (by decide), fun hstar => absurd hstar (by decide), fun _ _ => rfl⟩
  · exact h behind

/-! ## Letters -/

theorem ne_of_isAlpha {c d : Char} (hc : c.isAlpha = true) (hd : d.isAlpha = false) : c ≠ d := by
  rintro rfl
  rw [hc] at hd
  cases hd

theorem isPlainChar_of_isAlpha {c : Char} (h : c.isAlpha = true) : isPlainChar c = true := by
  rw [isPlainChar, Bool.not_eq_true', Bool.eq_false_iff]
  intro hc
  have hall : "+>^(){}[]*".toList.all (!·.isAlpha) = true := by decide
  have := List.all_eq_true.1 hall c (List.contains_iff_mem.1 hc)
  simp [h] at this

theorem isPartChar_of_isAlpha {c : Char} (h : c.isAlpha = true) : Part.isPartChar c = true := by
  have hword : isWordChar c = true := by
    have hascii : c.toNat < 128 := by
      by_contra hge
      rw [isAlpha_eq_false_iff.2 (by omega)] at h
      cases h
    simp [isWordChar, hascii, Char.isAlphanum, h]
  simp [Part.isPartChar, hword]

theorem startsLiteral_letters (ht : ∀ c ∈ t, c.isAlpha = true) : StartsLiteral t := by
  intro before c rest hsplit behind
  have hc : c.isAlpha = true := ht c (by simp [hsplit])
  exact .of_plain (operator?_of_plain (isPlainChar_of_isAlpha hc)) (ne_of_isAlpha hc (by decide))
    (ne_of_isAlpha hc (by decide))

theorem depthAfter_letters (ht : ∀ c ∈ t, c.isAlpha = true) : depthAfter t = {} :=
  Depth.foldl_after_eq_self fun c hc => Depth.after_of_plain (isPlainChar_of_isAlpha (ht c hc)) {}

theorem depthAfter_bracket (ht : ∀ c ∈ t, c.isAlpha = true) (hopen : '[' ∉ b) (hclose : ']' ∉ b) :
    depthAfter (t ++ '[' :: b) = ⟨0, 1⟩ := by
  have hstart : depthAfter (t ++ ['[']) = ⟨0, 1⟩ := by
    rw [depthAfter_concat, depthAfter_letters ht]
    rfl
  rw [List.append_cons, depthAfter_append, hstart, Depth.foldl_after_bracket hopen hclose]

/-- A text in brackets behind letters may be the start of a literal. -/
theorem startsLiteral_bracket (ht : ∀ c ∈ t, c.isAlpha = true) (hopen : '[' ∉ b)
    (hclose : ']' ∉ b) : StartsLiteral (t ++ '[' :: (b ++ [']'])) := by
  intro before x behind hsplit
  have hinside : ∀ p, p <+: b → (depthAfter (t ++ '[' :: p)).isTop = false := by
    intro p hp
    rw [depthAfter_bracket ht (fun h => hopen (hp.subset h)) fun h => hclose (hp.subset h)]
    rfl
  have hfirst : ∀ behind, Placed t '[' behind := fun _ => .of_plain rfl (by decide) (by decide)
  rcases placed_region (startsLiteral_letters ht) hfirst hinside hsplit with ⟨rfl, rfl⟩ | h
  · exact fun _ => .of_plain rfl (by decide) (by decide)
  · exact h

/-! ## Parts -/

namespace Part

theorem splitAtLast_eq_some {close : Char} (hne : close ≠ '\n') {x y : Text} (hx : '\n' ∉ x)
    (hy : close ∉ y) : splitAtLast close (x ++ close :: y) = some (x, y) := by
  rw [List.append_cons, splitAtLast_append hy, splitAtLast_concat hne hx]
  rfl

/-- A bracket reaches to the last closing one. -/
theorem scan_bracket (hne : b ≠ []) (hline : '\n' ∉ b) {rest : Text} (hrest : ']' ∉ rest) :
    scan ('[' :: (b ++ ']' :: rest)) = .bracket b :: scan rest := by
  refine scan_of_some ?_
  rw [read?, span?, splitAtLast_eq_some (by decide) hline hrest]
  simp [Option.filter, hne]

end Part

/-- A member of a list has a last place. -/
theorem exists_eq_append_cons {α : Type} {x : α} {xs : List α} (h : x ∈ xs) :
    ∃ before behind, xs = before ++ x :: behind ∧ x ∉ behind := by
  obtain ⟨before, behind, hxs, hx⟩ := List.eq_append_cons_of_mem (List.mem_reverse.2 h)
  refine ⟨behind.reverse, before.reverse, ?_, by simpa using hx⟩
  rw [← List.reverse_reverse xs, hxs]
  simp

namespace Node

/-- The content of a node is that of the start, or a text in braces. -/
theorem content_foldl_cases (table : Table) (parts : List Part) (node : Node) :
    (parts.foldl (add table) node).content = node.content ∨
      ∃ text, .content text ∈ parts ∧ (parts.foldl (add table) node).content = text := by
  induction parts generalizing node with
  | nil => exact .inl rfl
  | cons part parts ih =>
    rcases ih (node.add table part) with h | ⟨text, hmem, h⟩
    · cases part with
      | content text => exact .inr ⟨text, List.mem_cons_self, h⟩
      | _ => exact .inl h
    · exact .inr ⟨text, List.mem_cons_of_mem _ hmem, h⟩

/-- The attributes of a node reach to its last `]`. -/
theorem parse_bracket_last (table : Table) (hne : t ≠ []) (ht : ∀ ch ∈ t, ch.isAlpha = true)
    (hb : b ≠ []) (hline : '\n' ∉ b) {rest : Text} (hrest : ']' ∉ rest) :
    parse table (t ++ '[' :: (b ++ ']' :: rest)) = (Part.scan rest).foldl (add table)
      { tag := t, attributes := [expandAttributes table b] } := by
  rw [parse, Part.scan_word hne fun c hc => isPartChar_of_isAlpha (ht c hc),
    Part.scan_bracket hb hline hrest]
  · rfl
  · intro d hd
    obtain rfl : '[' = d := by simpa using hd
    decide

end Node

/-- **Where attributes end and text begins.** For the scanner, the text of a node is one literal, in
which the brackets end behind `b` and all of `c` is in the braces. Reading the node agrees with it
exactly if `c` has no `]`; otherwise the attributes reach to the last one in it. -/
theorem parse_bracketed_iff (table : Table) (hne : t ≠ []) (ht : ∀ ch ∈ t, ch.isAlpha = true)
    (hb : b ≠ []) (hbline : '\n' ∉ b) (hopen : '[' ∉ b) (hclose : ']' ∉ b) (hc : c ≠ [])
    (hcline : '\n' ∉ c) (hbraces : BalancedBraces c) :
    let head := t ++ '[' :: (b ++ [']'])
    let text := head ++ '{' :: (c ++ ['}'])
    depthAfter head = {} ∧
    (∀ p, p <+: c → ∃ n, depthAfter (head ++ '{' :: p) = ⟨n + 1, 0⟩) ∧
    (lexemes text).filter (!·.implied) = [{ token := .node text }] ∧
    (∀ x y, c = x ++ ']' :: y → ']' ∉ y →
      Node.parse table text = (Part.scan (y ++ ['}'])).foldl (Node.add table)
        { tag := t, attributes := [expandAttributes table (b ++ ']' :: '{' :: x)] }) ∧
    (Node.parse table text =
      { tag := t, attributes := [expandAttributes table b], content := c } ↔ ']' ∉ c) := by
  intro head text
  have hhead : depthAfter head = {} := by
    have hlast : head = (t ++ '[' :: b) ++ [']'] := by simp [head]
    rw [hlast, depthAfter_concat, depthAfter_bracket ht hopen hclose]
    rfl
  have hreach : ∀ x y, c = x ++ ']' :: y → ']' ∉ y →
      Node.parse table text = (Part.scan (y ++ ['}'])).foldl (Node.add table)
        { tag := t, attributes := [expandAttributes table (b ++ ']' :: '{' :: x)] } := by
    rintro x y rfl hy
    have htext : text = t ++ '[' :: ((b ++ ']' :: '{' :: x) ++ ']' :: (y ++ ['}'])) := by
      simp [text, head]
    rw [htext, Node.parse_bracket_last table hne ht (by simp) (by simp_all) (by simp [hy])]
  refine ⟨hhead, fun p hp => hbraces.depthAfter_prefix hhead hp, ?_, hreach, ?_, ?_⟩
  · have hliteral := isLiteral_braces (startsLiteral_bracket ht hopen hclose) hhead hbraces
    have hstar : text.head? ≠ some '*' := by
      obtain ⟨d, t', rfl⟩ := List.exists_cons_of_ne_nil hne
      have := ne_of_isAlpha (ht d List.mem_cons_self) (show '*'.isAlpha = false by decide)
      simpa [text, head] using this
    rw [lexemes_of_isLiteral (by simp) hliteral, Token.literal_of_head hstar]
  · -- what is left behind the last `]` is too short to have `c` as its content
    intro hnode hmem
    obtain ⟨x, y, hxy, hy⟩ := exists_eq_append_cons hmem
    have hcontent := congrArg Node.content ((hreach x y hxy hy).symm.trans hnode)
    rcases Node.content_foldl_cases table (Part.scan (y ++ ['}'])) _ with h | ⟨u, hu, h⟩
    · rw [h] at hcontent
      exact hc hcontent.symm
    · obtain rfl : u = c := h.symm.trans hcontent
      have := (Part.sublist_of_mem_scan hu).subset hmem
      simp [hy] at this
  · intro hmem
    have htext : text = t ++ '[' :: (b ++ ']' :: '{' :: (c ++ ['}'])) := by simp [text, head]
    rw [htext, Node.parse_bracket_last table hne ht hb hbline (by simp [hmem]),
      Part.scan_braces hc hcline]
    rfl

/-- `a[href={x}]{see [ref}`: a brace in the brackets, and a bracket in the braces that is never
closed -/
theorem parse_bracketed_open :
    let b := "href={x}".toList
    let c := "see [ref".toList
    BalancedBraces c ∧ ']' ∉ c ∧
      Node.parse [] (['a'] ++ '[' :: (b ++ [']']) ++ '{' :: (c ++ ['}'])) =
        { tag := ['a'], attributes := ["href=\"{x}\"".toList], content := c } := by
  intro b c
  have hbraces : BalancedBraces c := by decide
  have hclose : ']' ∉ c := by decide
  obtain ⟨-, -, -, -, hparse⟩ := parse_bracketed_iff (t := ['a']) (b := b) (c := c) [] (by decide)
    (List.forall_mem_singleton.2 rfl) (by decide) (by decide) (by decide) (by decide) (by decide)
    (by decide) hbraces
  refine ⟨hbraces, hclose, (hparse.2 hclose).trans ?_⟩
  decide +kernel

/-- `a[x=1]{see [ref]}`: with the closing bracket in it, most of the text becomes an attribute -/
theorem parse_bracketed_closed :
    let c := "see [ref]".toList
    let text := "a[x=1]{see [ref]}".toList
    text = "a[x=1]".toList ++ '{' :: (c ++ ['}']) ∧ BalancedBraces c ∧
      tokenize text = [.node text] ∧
      Node.parse [] text ≠
        { tag := ['a'], attributes := [expandAttributes [] "x=1".toList], content := c } ∧
      Node.parse [] text = { tag := ['a'], attributes := ["x=\"1]\x7bsee\" [ref".toList] } := by
  decide +kernel

end Shorthand
