import Shorthand.Fault

/-!
# Documents

The tree of a YAML document, before its plain scalars are given a meaning, and the cursor that reads
its text. Documents are read as far as settings need them: block and flow style, plain and quoted
scalars. Anchors, tags, directives, block scalars and escapes for half of a surrogate pair are not
read; a text with them is taken for one that is not well formed.

- `Document`: scalars, lists and mappings.
- `Reading`: what is read of a text, or why nothing is.
- `Cursor`: the rest of a text with the place reached. Indentation is told by columns, and a key
  must stand on one line with its colon.
-/

namespace Shorthand

/-- A node of a document. -/
inductive Document
  /-- A scalar without quotes, which may stand for a number and the like. -/
  | plain (t : Text)
  /-- A scalar in quotes, which is a text. -/
  | quoted (t : Text)
  | list (items : List Document)
  | mapping (entries : List (Document × Document))
  deriving Repr, Inhabited

namespace Document

/-- What is read of a text, or why nothing is. -/
abbrev Reading := Except DocumentFault

/-- What is read, if there is anything; else the text is not well formed. -/
def wellFormed {α : Type} : Option α → Reading α
  | some a => .ok a
  | none => .error .malformed

/-- A node that is left out. -/
abbrev absent : Document := plain []

/-- The byte order mark, which may start a text and fills no column. -/
def byteOrderMark : Char := Char.ofNat 0xFEFF

/-- A character that ends a line. -/
def isBreak (c : Char) : Bool :=
  c == '\n' || c == '\r' || c == Char.ofNat 0x85 || c == Char.ofNat 0x2028 ||
    c == Char.ofNat 0x2029

/-- A space, a tab or a line end. -/
def isSeparator (c : Char) : Bool :=
  c == ' ' || c == '\t' || isBreak c

/-- The text is at its end or goes on with a separator. -/
def startsSeparated : Text → Bool
  | [] => true
  | c :: _ => isSeparator c

/-- A character that a document may hold. -/
def isAllowed (c : Char) : Bool :=
  let n := c.toNat
  c == '\t' || c == '\n' || c == '\r' || (0x20 ≤ n && n ≤ 0x7E) || n == 0x85 ||
    (0xA0 ≤ n && n ≤ 0xFFFD) || 0x10000 ≤ n

/-- The rest of a text with its place. -/
structure Cursor where
  rest : Text
  line : Nat := 0
  column : Nat := 0
  /-- The number of characters before the place. -/
  offset : Nat := 0
  deriving DecidableEq, Repr

namespace Cursor

/-- The cursor after one character. -/
def next (c : Cursor) : Cursor :=
  match c.rest with
  | [] => c
  | ch :: rest =>
    if isBreak ch && !(ch == '\r' && rest.head? == some '\n') then
      { rest, line := c.line + 1, column := 0, offset := c.offset + 1 }
    else
      { rest, line := c.line, offset := c.offset + 1
        column := if ch = byteOrderMark then c.column else c.column + 1 }

/-- The cursor after `n` characters. -/
def skip : Nat → Cursor → Cursor
  | 0, c => c
  | n + 1, c => skip n c.next

/-- The cursor at the next token: after spaces, line ends and comments. -/
def toToken (c : Cursor) : Cursor :=
  go c.rest.length false c
where
  /-- The cursor after at most `n` characters that are no token. -/
  go : Nat → Bool → Cursor → Cursor
    | 0, _, c => c
    | n + 1, inComment, c =>
      match c.rest with
      | [] => c
      | ch :: _ =>
        if isBreak ch then go n false c.next
        else if inComment || ch == ' ' then go n inComment c.next
        else if ch == '#' then go n true c.next
        else c

/-- At the start of a line, three equal characters that stand alone. -/
def isMarker (mark : Char) (c : Cursor) : Bool :=
  c.column == 0 && c.rest.take 3 == [mark, mark, mark] && startsSeparated (c.rest.drop 3)

/-- At a line that starts or ends a document. -/
def atBoundary (c : Cursor) : Bool :=
  c.isMarker '-' || c.isMarker '.'

/-- Where no node can start: at the end of the text or of the document. -/
def atEnd (c : Cursor) : Bool :=
  c.rest.isEmpty || c.atBoundary

/-- The line end at the cursor as it counts in a scalar, and the cursor after it. -/
def lineBreak? (c : Cursor) : Option (Char × Cursor) :=
  match c.rest with
  | '\r' :: '\n' :: _ => some ('\n', skip 2 c)
  | ch :: _ =>
    if ch == Char.ofNat 0x2028 || ch == Char.ofNat 0x2029 then some (ch, c.next)
    else if isBreak ch then some ('\n', c.next)
    else none
  | [] => none

end Cursor

/-- What line ends amount to inside a scalar: the first is a space when it stands alone and is
dropped before others. -/
def foldBreaks (first : Char) (others : Text) : Text :=
  if first != '\n' then first :: others
  else if others.isEmpty then [' '] else others

end Document

end Shorthand
