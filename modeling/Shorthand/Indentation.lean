import Shorthand.Text.Basic
import Shorthand.Text.Blank

/-!
# Indentation

Indented writing shows nesting by indentation; `inlineIndentation` turns it into operators.

- `indentLevel`: the level of a line, one for each leading tab or unit of spaces.
- `countOutsideSpans`: how often an operator stands in a line outside quotes and braces.
- `joint`: the operator that joins a line to the level reached before it.
-/

namespace Shorthand

/-! ## Quoted and braced spans -/

/-- The character that closes a span opened by `c`. -/
def spanCloser? (c : Char) : Option Char :=
  if c = '"' then some '"' else if c = '\'' then some '\'' else if c = '{' then some '}' else none

/-- What follows a span whose opening character has been read. A backslash keeps the next
character, which must be on the same line, from closing the span. -/
def afterSpan (close : Char) : Text → Option Text
  | [] => none
  | '\\' :: [] => none
  | '\\' :: c :: rest => if c = '\n' then none else afterSpan close rest
  | c :: rest => if c = close then some rest else afterSpan close rest

theorem length_afterSpan {close : Char} {t rest : Text} (h : afterSpan close t = some rest) :
    rest.length < t.length := by
  fun_induction afterSpan close t with
  | case1 => simp at h
  | case2 => simp at h
  | case3 => simp at h
  | case4 c r hc ih => have := ih h; simp; omega
  | case5 r => simp at h; simp [h]
  | case6 c r _ _ hc ih => have := ih h; simp; omega

/-- A text without its quoted and braced spans. An opening character after a backslash
(`escaped`) opens nothing, and neither does one whose span is never closed. -/
def withoutSpans (escaped : Bool) (t : Text) : Text :=
  match t with
  | [] => []
  | c :: rest =>
    match _ : (if escaped then none else spanCloser? c).bind (afterSpan · rest) with
    | some rest' => withoutSpans false rest'
    | none => c :: withoutSpans (c == '\\') rest
termination_by t.length
decreasing_by
  · obtain ⟨close, -, hr⟩ := Option.bind_eq_some_iff.1 ‹_›
    have := length_afterSpan hr
    simp; omega
  · simp

/-- How often `part` stands in a line outside quoted and braced spans. -/
def countOutsideSpans (line part : Text) : Nat :=
  Text.occurrences part (withoutSpans false line)

/-! ## Levels -/

/-- The indentation level of a line: every leading tab, and every leading unit of two spaces (four
when `wide`), counts as one. -/
def indentLevel : (wide : Bool) → Text → Nat
  | wide, '\t' :: rest => indentLevel wide rest + 1
  | true, ' ' :: ' ' :: ' ' :: ' ' :: rest => indentLevel true rest + 1
  | false, ' ' :: ' ' :: rest => indentLevel false rest + 1
  | _, _ => 0

/-- A third line that starts with exactly one space selects units of four spaces. -/
def usesWideUnits (lines : List Text) : Bool :=
  match lines[2]? with
  | some (' ' :: rest) => rest.head? != some ' '
  | _ => false

/-- The operator that leads from the level `reached` to a line at `level`: one `>` down, one `+`
beside, one `^` for each level up. A negative level, as before the first line, is led from by no
operator. -/
def joint (reached : Int) (level : Nat) : Text :=
  if reached < 0 then []
  else if reached < level then ['>']
  else if reached = level then ['+']
  else List.replicate (reached - level).toNat '^'

/-- The level that the next line is compared with: operators inside a line shift it. -/
def levelAfter (wide : Bool) (line : Text) : Int :=
  indentLevel wide line + countOutsideSpans line ['>'] - countOutsideSpans line ['^']

/-- The lines from the level `reached` on as one line; blank lines are passed over. -/
def joinLines (wide : Bool) (reached : Int) : List Text → Text
  | [] => []
  | line :: rest =>
    let body := line.trim isBlank
    if body.isEmpty then joinLines wide reached rest
    else
      joint reached (indentLevel wide line) ++ body ++ joinLines wide (levelAfter wide line) rest

/-- Indented writing as one line, with operators in place of the indentation. -/
def inlineIndentation (t : Text) : Text :=
  let lines := t.splitOn '\n'
  joinLines (usesWideUnits lines) (-1) lines

end Shorthand
