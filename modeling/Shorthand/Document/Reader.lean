import Shorthand.Document.Scalar

/-!
# Reading documents

The block style shows structure by indentation, the flow style by brackets and braces. A node starts
with a scalar or a flow collection; when a colon follows on the same line it is the first key of a
mapping.

- `readFlow`: a node in flow style.
- `readBlock`: a node in block style.
- `Document.parse`: the one document of a text.
-/

namespace Shorthand.Document

/-- The greatest distance between the start of a key and its colon. -/
def maxKeyLength : Nat := 1024

/-- A key that started at `start` may have its colon at `c`. -/
def keyReaches (start c : Cursor) : Bool :=
  c.line == start.line && c.offset - start.offset ≤ maxKeyLength

/-- Whether the cursor is at a character. -/
def Cursor.at_ (ch : Char) (c : Cursor) : Bool :=
  c.rest.head? == some ch

/-! ## Flow style -/

mutual

/-- The node in flow style at the cursor, and the cursor after it. -/
def readFlow : Nat → Cursor → Reading (Document × Cursor)
  | 0, _ => .error .malformed
  | n + 1, c =>
    if c.atEnd then .error .malformed
    else if c.at_ '[' then (readFlowItems n c.next).map fun (items, c') => (list items, c')
    else if c.at_ '\x7b' then
      (readFlowEntries n c.next).map fun (entries, c') => (mapping entries, c')
    else if c.at_ '"' then (quotedScalar true c).map fun (t, c') => (quoted t, c')
    else if c.at_ '\'' then (quotedScalar false c).map fun (t, c') => (quoted t, c')
    else if startsPlain true c.rest then
      let (t, c') := plainScalar true 0 c
      .ok (plain t, c')
    else .error .malformed

/-- The value of a key, if the colon after it is at the second cursor, and the cursor at the token
after that. Nothing stands before a comma or the end. -/
def readFlowValue (close : Char) : Nat → Cursor → Cursor → Reading (Option Document × Cursor)
  | 0, _, _ => .error .malformed
  | n + 1, start, t =>
    if !t.at_ ':' then .ok (none, t)
    else if !keyReaches start t then .error .malformed
    else
      let v := t.next.toToken
      if v.at_ ',' || v.at_ close then .ok (absent, v)
      else (readFlow n v).map fun (value, c) => (value, c.toToken)

/-- The items of a list after its bracket or a comma. A pair may stand for a mapping. -/
def readFlowItems : Nat → Cursor → Reading (List Document × Cursor)
  | 0, _ => .error .malformed
  | n + 1, c => do
    let start := c.toToken
    if start.at_ ']' then return ([], start.next)
    let (item, c') ← readFlow n start
    let (value, t) ← readFlowValue ']' n start c'.toToken
    let item := value.elim item fun v => mapping [(item, v)]
    if t.at_ ']' then return ([item], t.next)
    else if t.at_ ',' then
      let (items, c'') ← readFlowItems n t.next
      return (item :: items, c'')
    else .error .malformed

/-- The entries of a mapping after its brace or a comma. A key alone has nothing for a value. -/
def readFlowEntries : Nat → Cursor → Reading (List (Document × Document) × Cursor)
  | 0, _ => .error .malformed
  | n + 1, c => do
    let start := c.toToken
    if start.at_ '\x7d' then return ([], start.next)
    let (key, c') ← readFlow n start
    let (value, t) ← readFlowValue '\x7d' n start c'.toToken
    let entry := (key, value.getD absent)
    if t.at_ '\x7d' then return ([entry], t.next)
    else if t.at_ ',' then
      let (entries, c'') ← readFlowEntries n t.next
      return (entry :: entries, c'')
    else .error .malformed

end

/-! ## Block style -/

/-- Whether an item of a block list starts here. -/
def Cursor.atItem (c : Cursor) : Bool :=
  c.at_ '-' && startsSeparated (c.rest.drop 1)

/-- Whether the colon of a block key stands here. -/
def Cursor.atColon (c : Cursor) : Bool :=
  c.at_ ':' && startsSeparated (c.rest.drop 1)

/-- The scalar or flow collection at the cursor, and the cursor after it. -/
def readAtom (n floor : Nat) (c : Cursor) : Reading (Document × Cursor) :=
  if c.atItem then .error .malformed
  else if startsPlain false c.rest then
    let (t, c') := plainScalar false floor c
    .ok (plain t, c')
  else if c.at_ '[' || c.at_ '\x7b' || c.at_ '"' || c.at_ '\'' then readFlow n c
  else .error .malformed

mutual

/-- The node in block style at the cursor, and the cursor after it. Its lines must not start before
column `floor`. A list or a key may only start where `opens` is true: on a line of its own or after
the dash of an item. -/
def readBlock : Nat → Nat → Bool → Cursor → Reading (Document × Cursor)
  | 0, _, _, _ => .error .malformed
  | n + 1, floor, opens, c =>
    if c.atItem then
      if opens then
        (readItems n c.column false c).map fun (items, c') => (list items, c')
      else .error .malformed
    else do
      let (atom, c') ← readAtom n floor c
      let t := c'.toToken
      if t.atColon && keyReaches c t then
        if opens then
          let (entries, c'') ← readEntries n c.column atom t.next
          return (mapping entries, c'')
        else .error .malformed
      else return (atom, c')
termination_by structural n _ _ _ => n

/-- The items of a list in column `column` from the dash at the cursor on. A list `inMapping`, in
the column of the mapping that it is a value of, ends at the next key. -/
def readItems : Nat → Nat → Bool → Cursor → Reading (List Document × Cursor)
  | 0, _, _, _ => .error .malformed
  | n + 1, column, inMapping, c => do
    let (item, c') ← readItem n column c
    let t := c'.toToken
    if t.atEnd || t.column < column then return ([item], c')
    else if t.line = c'.line then .error .malformed
    else if t.column = column && t.atItem then
      let (items, c'') ← readItems n column inMapping t
      return (item :: items, c'')
    else if t.column = column && inMapping then return ([item], c')
    else .error .malformed
termination_by structural n _ _ _ => n

/-- The item after the dash at the cursor, which may be left out. -/
def readItem : Nat → Nat → Cursor → Reading (Document × Cursor)
  | 0, _, _ => .error .malformed
  | n + 1, column, c =>
    let t := c.next.toToken
    if t.atEnd || (t.line != c.line && t.column ≤ column) then .ok (absent, c.next)
    else readBlock n (column + 1) true t
termination_by structural n _ _ => n

/-- The value after a key's colon. A list may stand in the column of the key. -/
def readValue : Nat → Nat → Cursor → Reading (Document × Cursor)
  | 0, _, _ => .error .malformed
  | n + 1, column, c =>
    let t := c.toToken
    if t.atEnd then .ok (absent, c)
    else if t.line = c.line then readBlock n (column + 1) false t
    else if column < t.column then readBlock n (column + 1) true t
    else if t.column = column && t.atItem then
      (readItems n column true t).map fun (items, c') => (list items, c')
    else .ok (absent, c)
termination_by structural n _ _ => n

/-- The entries of a mapping in column `column`, from the colon after its first key on. -/
def readEntries : Nat → Nat → Document → Cursor → Reading (List (Document × Document) × Cursor)
  | 0, _, _, _ => .error .malformed
  | n + 1, column, key, c => do
    let (value, c') ← readValue n column c
    let start := c'.toToken
    if start.atEnd || start.column < column then return ([(key, value)], c')
    else if start.line != c'.line && start.column = column then
      let (key', c'') ← readAtom n (column + 1) start
      let t := c''.toToken
      if t.atColon && keyReaches start t then
        let (entries, c''') ← readEntries n column key' t.next
        return ((key, value) :: entries, c''')
      else .error .malformed
    else .error .malformed
termination_by structural n _ _ _ => n

end

/-! ## Whole texts -/

/-- Whether nothing follows a document but lines that end it. -/
def closes : Nat → Cursor → Bool
  | 0, _ => false
  | n + 1, c =>
    let t := c.toToken
    t.rest.isEmpty || (t.isMarker '.' && closes n (t.skip 3))

/-- The node that a document has, from the first token of the text on. -/
def readStart (fuel : Nat) (t : Cursor) : Reading (Document × Cursor) :=
  if t.rest.isEmpty then .ok (absent, t)
  else if t.isMarker '-' then
    let t' := (t.skip 3).toToken
    if t'.atEnd then .ok (absent, t') else readBlock fuel 0 (t'.line != t.line) t'
  else if t.isMarker '.' then .error .malformed
  else readBlock fuel 0 true t

/-- The one document of a text. An empty text is an absent node. -/
def parse (text : Text) : Reading Document := do
  if !text.all isAllowed then throw .malformed
  let fuel := 4 * text.length + 16
  let start : Cursor := { rest := text }
  let t := (if start.at_ byteOrderMark then start.next else start).toToken
  let (document, c) ← readStart fuel t
  if closes fuel c then return document else throw .malformed

end Shorthand.Document
