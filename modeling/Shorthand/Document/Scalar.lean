import Shorthand.Document.Basic

/-!
# Scalars of a document

- `plainScalar`: a scalar without quotes, which may go on over lines as long as they are indented.
- `singleQuoted`, `doubleQuoted`: scalars in quotes; a line end is folded into a space.
-/

namespace Shorthand.Document

/-! ## Plain scalars -/

/-- A character that ends a plain scalar inside brackets or braces. -/
def isFlowEnd (c : Char) : Bool :=
  c == ',' || c == '?' || c == '[' || c == ']' || c == '{' || c == '}'

/-- A colon is followed by this where it ends a key. -/
def endsKey (flow : Bool) (after : Text) : Bool :=
  startsSeparated after ||
    (flow && (after.head?.any fun c => isFlowEnd c && c != '?'))

/-- The characters up to the next separator that belong to a plain scalar. -/
def plainWord (flow : Bool) : Text → Text
  | [] => []
  | c :: rest =>
    if isSeparator c || (c == ':' && endsKey flow rest) || (flow && isFlowEnd c) then []
    else c :: plainWord flow rest

/-- Whether a plain scalar can start here. -/
def startsPlain (flow : Bool) : Text → Bool
  | [] => false
  | c :: rest =>
    if c == '-' || (!flow && (c == '?' || c == ':')) then !startsSeparated rest
    else
      !(isSeparator c || isFlowEnd c || c == ':' || c == '#' || c == '&' || c == '*' || c == '!' ||
        c == '|' || c == '>' || c == '\'' || c == '"' || c == '%' || c == '@' || c == '\x60')

/-- The line ends after the first one, over lines that hold spaces only, and the cursor after
them. Nothing is read past a line that starts or ends a document. -/
def plainBreaks : Nat → Cursor → Option (Text × Cursor)
  | 0, c => some ([], c)
  | n + 1, c =>
    if c.atBoundary then none
    else
      let c := c.skip (c.rest.takeWhile (· == ' ')).length
      match c.lineBreak? with
      | none => some ([], c)
      | some (b, c') => (plainBreaks n c').map fun (bs, c'') => (b :: bs, c'')

/-- The space between two words of a plain scalar as it counts, and the cursor after it. -/
def plainSpace (c : Cursor) : Option (Text × Cursor) :=
  let spaces := c.rest.takeWhile (· == ' ')
  let c := c.skip spaces.length
  match c.lineBreak? with
  | none => if spaces.isEmpty then none else some (spaces, c)
  | some (b, c') =>
    (plainBreaks c'.rest.length c').map fun (bs, c'') => (foldBreaks b bs, c'')

/-- The rest of a plain scalar, whose further lines must not start before column `floor`. -/
def plainRest (flow : Bool) (floor : Nat) : Nat → Cursor → Text × Cursor
  | 0, c => ([], c)
  | n + 1, c =>
    let word := plainWord flow c.rest
    if word.isEmpty || c.rest.head? == some '#' then ([], c)
    else
      let c := c.skip word.length
      match plainSpace c with
      | none => (word, c)
      | some (space, c') =>
        if c'.rest.head? == some '#' || (!flow && c'.column < floor) then (word, c)
        else
          match plainRest flow floor n c' with
          | ([], _) => (word, c)
          | (more, c'') => (word ++ space ++ more, c'')

/-- The plain scalar at the cursor, and the cursor after its last word. -/
def plainScalar (flow : Bool) (floor : Nat) (c : Cursor) : Text × Cursor :=
  plainRest flow floor c.rest.length c

/-! ## Quoted scalars -/

/-- The line ends after the first one in a quoted scalar, with the blanks around them dropped. A
line that starts or ends a document cannot stand inside. -/
def quotedBreaks : Nat → Cursor → Option (Text × Cursor)
  | 0, c => some ([], c)
  | n + 1, c =>
    if c.atBoundary then none
    else
      let c := c.skip (c.rest.takeWhile fun ch => ch == ' ' || ch == '\t').length
      match c.lineBreak? with
      | none => some ([], c)
      | some (b, c') => (quotedBreaks n c').map fun (bs, c'') => (b :: bs, c'')

/-- Blanks and line ends in a quoted scalar as they count, and the cursor after them. -/
def quotedSpace (c : Cursor) : Option (Text × Cursor) :=
  let spaces := c.rest.takeWhile fun ch => ch == ' ' || ch == '\t'
  let c := c.skip spaces.length
  match c.lineBreak? with
  | none => some (spaces, c)
  | some (b, c') =>
    (quotedBreaks c'.rest.length c').map fun (bs, c'') => (foldBreaks b bs, c'')

/-- The value of a hexadecimal digit. -/
def hexDigit? (c : Char) : Option Nat :=
  if c.isDigit then some (c.toNat - 48)
  else if 'a' ≤ c && c ≤ 'f' then some (c.toNat - 87)
  else if 'A' ≤ c && c ≤ 'F' then some (c.toNat - 55)
  else none

/-- The number that hexadecimal digits write. -/
def hexValue? (ds : Text) : Option Nat :=
  ds.foldlM (fun n c => (hexDigit? c).map (16 * n + ·)) 0

/-- The character that one letter after a backslash stands for. -/
def escapedChar? : Char → Option Char
  | '0' => some (Char.ofNat 0)
  | 'a' => some (Char.ofNat 7)
  | 'b' => some (Char.ofNat 8)
  | 't' => some '\t'
  | '\t' => some '\t'
  | 'n' => some '\n'
  | 'v' => some (Char.ofNat 11)
  | 'f' => some (Char.ofNat 12)
  | 'r' => some '\r'
  | 'e' => some (Char.ofNat 27)
  | ' ' => some ' '
  | '"' => some '"'
  | '\\' => some '\\'
  | '/' => some '/'
  | 'N' => some (Char.ofNat 0x85)
  | '_' => some (Char.ofNat 0xA0)
  | 'L' => some (Char.ofNat 0x2028)
  | 'P' => some (Char.ofNat 0x2029)
  | _ => none

/-- The number of hexadecimal digits that a letter after a backslash takes. -/
def escapedWidth? : Char → Option Nat
  | 'x' => some 2
  | 'u' => some 4
  | 'U' => some 8
  | _ => none

/-- The character with a number. -/
def charOfCode (code : Nat) : Reading Char :=
  if code.isValidChar then .ok (Char.ofNat code)
  else if 0x10FFFF < code then .error (.fault (.notCharacter code))
  else .error .malformed

/-- The text of an escape whose backslash has been read, and the cursor after it. An escaped line
end joins two lines. -/
def escape (c : Cursor) : Reading (Text × Cursor) :=
  match c.rest with
  | [] => .error .malformed
  | ch :: rest =>
    match escapedChar? ch, escapedWidth? ch with
    | some e, _ => .ok ([e], c.next)
    | none, some width =>
      let ds := rest.take width
      if ds.length = width then do
        let e ← charOfCode (← wellFormed (hexValue? ds))
        return ([e], c.skip (width + 1))
      else .error .malformed
    | none, none => wellFormed (c.lineBreak?.bind fun (_, c') => quotedBreaks c'.rest.length c')

/-- The rest of a quoted scalar whose opening quote has been read, and the cursor after its closing
quote. Escapes are known in double quotes only; in single quotes a quote is written twice. -/
def quotedRest (double : Bool) : Nat → Cursor → Reading (Text × Cursor)
  | 0, _ => .error .malformed
  | n + 1, c =>
    match c.rest with
    | [] => .error .malformed
    | ch :: rest =>
      if isSeparator ch then do
        let (space, c') ← wellFormed (quotedSpace c)
        let (more, c'') ← quotedRest double n c'
        return (space ++ more, c'')
      else if double && ch == '\\' then do
        let (t, c') ← escape c.next
        let (more, c'') ← quotedRest double n c'
        return (t ++ more, c'')
      else if !double && ch == '\'' && rest.head? == some '\'' then do
        let (more, c') ← quotedRest double n (c.skip 2)
        return ('\'' :: more, c')
      else if ch == (if double then '"' else '\'') then .ok ([], c.next)
      else do
        let (more, c') ← quotedRest double n c.next
        return (ch :: more, c')

/-- The scalar in quotes at the cursor, and the cursor after it. -/
def quotedScalar (double : Bool) (c : Cursor) : Reading (Text × Cursor) :=
  quotedRest double c.rest.length c.next

end Shorthand.Document
