import Shorthand.Proofs.Scanner

/-!
# One signed counter

Whichever kind is opened first owns the region, so braces and brackets are never open together. One
integer can count both: open braces up from zero, open brackets down.

- `Depth.OneKind`: at most one kind is open. `Depth.OneKind.after`: no character changes that.
- `Depth.signed`: the integer for both counters. `Depth.OneKind.signed_after`: how a character moves
  it (`signedAfter`).
- `SignedScanner`: the scanner with the integer in the place of the counters. `Scanner.signed` takes
  the one to the other, and they read alike (`Scanner.step_signed`, `Scanner.scan_signed`).
- `tokenize_signed`: both scanners give the same tokens of every text.
-/

namespace Shorthand

/-! ## Depth -/

/-- The signed depth after a character. A brace counts at zero and above, a bracket at zero and
below; nothing is closed at zero. -/
def signedAfter (d : Int) (c : Char) : Int :=
  match c with
  | '{' => if 0 ≤ d then d + 1 else d
  | '}' => if 0 < d then d - 1 else d
  | '[' => if d ≤ 0 then d - 1 else d
  | ']' => if d < 0 then d + 1 else d
  | _ => d

namespace Depth

/-- No braces or no brackets are open. -/
def OneKind (d : Depth) : Prop :=
  d.braces = 0 ∨ d.brackets = 0

/-- Open braces counted up from zero, open brackets down. -/
def signed (d : Depth) : Int :=
  d.braces - d.brackets

theorem OneKind.after {d : Depth} (h : d.OneKind) (c : Char) : (d.after c).OneKind := by
  unfold OneKind at h ⊢
  unfold Depth.after
  split <;> grind

theorem OneKind.signed_after {d : Depth} (h : d.OneKind) (c : Char) :
    (d.after c).signed = signedAfter d.signed c := by
  unfold OneKind at h
  unfold Depth.after signedAfter signed
  split <;> grind

theorem OneKind.signed_eq_zero {d : Depth} (h : d.OneKind) :
    d.signed = 0 ↔ d.isTop = true := by
  rw [isTop, Bool.and_eq_true, beq_iff_eq, beq_iff_eq, signed]
  unfold OneKind at h
  omega

theorem oneKind_foldl {d : Depth} (h : d.OneKind) (t : Text) :
    (t.foldl Depth.after d).OneKind := by
  induction t generalizing d with
  | nil => exact h
  | cons c t ih => exact ih (h.after c)

end Depth

/-! ## The scanner with one counter -/

/-- What the scanner knows between two characters, with a signed depth. -/
structure SignedScanner where
  depth : Int := 0
  /-- The literal read so far, its last character first. -/
  pending : Text := []
  /-- The last character read is a closing brace. -/
  afterBrace : Bool := false
  deriving DecidableEq, Repr

namespace SignedScanner

/-- The literal read so far, as a token, if there is one. -/
def flush (s : SignedScanner) : List Token :=
  if s.pending.isEmpty then [] else [.literal s.pending.reverse]

/-- The `+` that is implied between a closing brace and a character read at the top level. -/
def impliedSibling (s : SignedScanner) (c : Char) : List Token :=
  if s.afterBrace ∧ signedAfter s.depth c = 0 ∧ c ≠ '*' then [.sibling] else []

/-- Reads one character: the tokens that it completes, and the scanner after it. The top level is
where the depth is zero. -/
def step (s : SignedScanner) (c : Char) : List Token × SignedScanner :=
  let depth := signedAfter s.depth c
  let implied := s.impliedSibling c
  let next (pending : Text) : SignedScanner := ⟨depth, pending, c == '}'⟩
  if depth = 0 then
    match Token.operator? c with
    | some op => (s.flush ++ [op] ++ implied, next [])
    | none =>
      if c = '}' then ([Token.literal (c :: s.pending).reverse] ++ implied, next [])
      else if c = '*' then (s.flush, next [c])
      else (implied, next (c :: s.pending))
  else ([], next (c :: s.pending))

/-- The tokens of the rest of a text. -/
def scan (s : SignedScanner) : Text → List Token
  | [] => s.flush
  | c :: rest => (s.step c).1 ++ scan (s.step c).2 rest

/-- The scanner after a text. -/
def after (s : SignedScanner) (t : Text) : SignedScanner :=
  t.foldl (fun s c => (s.step c).2) s

/-- The tokens of a text. -/
def tokenize (t : Text) : List Token :=
  scan {} t

end SignedScanner

/-! ## Both scanners -/

namespace Scanner

/-- The scanner with one counter in the place of two. -/
def signed (s : Scanner) : SignedScanner :=
  ⟨s.depth.signed, s.pending, s.afterBrace⟩

theorem flush_signed (s : Scanner) : s.signed.flush = s.flush.map Lexeme.token := by
  unfold SignedScanner.flush flush signed
  split <;> rfl

theorem impliedSibling_signed {s : Scanner} (h : s.depth.OneKind) (c : Char) :
    s.signed.impliedSibling c = (s.impliedSibling c).map Lexeme.token := by
  have htop : signedAfter s.depth.signed c = 0 ↔ (s.depth.after c).isTop = true := by
    rw [← h.signed_after, (h.after c).signed_eq_zero]
  unfold SignedScanner.impliedSibling impliedSibling signed
  simp only [htop, Bool.and_eq_true, bne_iff_ne, and_assoc]
  split <;> rfl

/-- Both scanners do the same at a character. -/
theorem step_signed {s : Scanner} (h : s.depth.OneKind) (c : Char) :
    s.signed.step c = ((s.step c).1.map Lexeme.token, (s.step c).2.signed) := by
  have hdepth : signedAfter s.signed.depth c = (s.depth.after c).signed := (h.signed_after c).symm
  have hzero := (h.after c).signed_eq_zero
  have himplied := impliedSibling_signed h c
  unfold SignedScanner.step step
  simp only [hdepth, hzero, himplied, flush_signed]
  cases htop : (s.depth.after c).isTop with
  | false => simp [signed, impliedSibling, htop]
  | true =>
    cases hop : Token.operator? c with
    | some op => simp [signed]
    | none =>
      by_cases hbrace : c = '}'
      · simp [signed, hbrace]
      · by_cases hstar : c = '*' <;> simp [signed, hbrace, hstar]

theorem scan_signed {s : Scanner} (h : s.depth.OneKind) (t : Text) :
    s.signed.scan t = (s.scan t).map Lexeme.token := by
  induction t generalizing s with
  | nil => exact s.flush_signed
  | cons c t ih =>
    have hnext : (s.step c).2.depth.OneKind := s.depth_step c ▸ h.after c
    rw [SignedScanner.scan, scan, step_signed h, ih hnext, List.map_append]

/-- Both scanners are at the same place after a text. -/
theorem after_signed {s : Scanner} (h : s.depth.OneKind) (t : Text) :
    s.signed.after t = (s.after t).signed := by
  induction t generalizing s with
  | nil => rfl
  | cons c t ih =>
    have hnext : (s.step c).2.depth.OneKind := s.depth_step c ▸ h.after c
    rw [SignedScanner.after, after, List.foldl_cons, List.foldl_cons, step_signed h]
    exact ih hnext

end Scanner

/-- **One signed counter does for two.** The scanner that counts braces and brackets by one integer
gives the same tokens of every text. After each of its prefixes, no braces or no brackets are open,
and the integer is the number of the ones less that of the others. -/
theorem tokenize_signed (t : Text) :
    SignedScanner.tokenize t = tokenize t ∧
    ∀ n, let depth := (Scanner.after {} (t.take n)).depth
      (depth.braces = 0 ∨ depth.brackets = 0) ∧
      (SignedScanner.after {} (t.take n)).depth = (depth.braces : Int) - depth.brackets := by
  have hstart : ({} : Scanner).depth.OneKind := .inl rfl
  refine ⟨Scanner.scan_signed hstart t, fun n => ⟨?_, ?_⟩⟩
  · rw [Scanner.depth_after_eq_foldl]
    exact Depth.oneKind_foldl hstart _
  · exact congrArg SignedScanner.depth (Scanner.after_signed hstart (t.take n))

/-- A brace inside brackets and a bracket inside braces are plain text. -/
example : SignedScanner.tokenize "a[\x7b>]+b\x7b[>\x7dc".toList =
    [.node "a[\x7b>]".toList, .sibling, .node "b\x7b[>\x7d".toList, .sibling, .node ['c']] := by
  decide +kernel

end Shorthand
