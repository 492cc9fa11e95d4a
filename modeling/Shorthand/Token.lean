import Shorthand.Text.Basic

/-!
# Tokens

An abbreviation is read as operators, repeat markers and nodes.

- `Depth`: how many braces and brackets are open. Whichever kind is opened first owns the region,
  and the other kind is plain text inside it; operators count only at the top level.
- `Scanner`: the state between two characters. `Scanner.step` reads one character.
- `Lexeme`: a token with the mark of an implied `+`, which follows a closing brace.
- `tokenize`: the tokens of a text.
-/

namespace Shorthand

/-! ## Tokens -/

/-- A token of an abbreviation. -/
inductive Token
  /-- `^`: out of the enclosing tag. -/
  | climb
  /-- `>`: the next node is inside the last. -/
  | nest
  /-- `+`: the next node is beside the last. -/
  | sibling
  | openGroup
  | closeGroup
  /-- `*` and what follows it: the last node or group several times. -/
  | times (marker : Text)
  /-- Anything else: a tag with its attributes and text. -/
  | node (text : Text)
  deriving DecidableEq, Repr

/-- The operator that a character stands for at the top level. -/
def Token.operator? : Char → Option Token
  | '^' => some .climb
  | '>' => some .nest
  | '+' => some .sibling
  | '(' => some .openGroup
  | ')' => some .closeGroup
  | _ => none

/-- The token of a text between operators. -/
def Token.literal : Text → Token
  | '*' :: marker => .times marker
  | t => .node t

/-- The token that a whole text stands for. An empty text is none. -/
def Token.ofText? : Text → Option Token
  | [] => none
  | [c] => some ((Token.operator? c).getD (Token.literal [c]))
  | t => some (Token.literal t)

/-- The text of a token. -/
def Token.text : Token → Text
  | climb => ['^']
  | nest => ['>']
  | sibling => ['+']
  | openGroup => ['(']
  | closeGroup => [')']
  | times marker => '*' :: marker
  | node text => text

/-! ## Depth -/

/-- The numbers of open braces and brackets. -/
structure Depth where
  braces : Nat := 0
  brackets : Nat := 0
  deriving DecidableEq, Repr

namespace Depth

/-- Nothing is open. -/
def isTop (d : Depth) : Bool :=
  d.braces == 0 && d.brackets == 0

/-- The depth after a character. A brace inside brackets and a bracket inside braces change
nothing, and neither does a closing character with nothing to close. -/
def after (d : Depth) (c : Char) : Depth :=
  match c with
  | '{' => if d.brackets = 0 then { d with braces := d.braces + 1 } else d
  | '}' => { d with braces := d.braces - 1 }
  | '[' => if d.braces = 0 then { d with brackets := d.brackets + 1 } else d
  | ']' => { d with brackets := d.brackets - 1 }
  | _ => d

end Depth

/-! ## The scanner -/

/-- A token with the mark of a `+` that is implied rather than written. -/
structure Lexeme where
  token : Token
  implied : Bool := false
  deriving DecidableEq, Repr

/-- What the scanner knows between two characters. -/
structure Scanner where
  depth : Depth := {}
  /-- The literal read so far, its last character first. -/
  pending : Text := []
  /-- The last character read is a closing brace. -/
  afterBrace : Bool := false
  deriving DecidableEq, Repr

namespace Scanner

/-- The literal read so far, as a lexeme, if there is one. -/
def flush (s : Scanner) : List Lexeme :=
  if s.pending.isEmpty then [] else [{ token := Token.literal s.pending.reverse }]

/-- The `+` that is implied between a closing brace and a character read at the top level. A repeat
marker belongs to the text before it and takes none. -/
def impliedSibling (s : Scanner) (c : Char) : List Lexeme :=
  if s.afterBrace && (s.depth.after c).isTop && c != '*' then
    [{ token := .sibling, implied := true }]
  else []

/-- Reads one character: the lexemes that it completes, and the scanner after it. At the top level
an operator is a token of its own, a closing brace ends its literal, and `*` starts a new one. -/
def step (s : Scanner) (c : Char) : List Lexeme × Scanner :=
  let depth := s.depth.after c
  let implied := s.impliedSibling c
  let next (pending : Text) : Scanner := ⟨depth, pending, c == '}'⟩
  if depth.isTop then
    match Token.operator? c with
    | some op => (s.flush ++ [{ token := op }] ++ implied, next [])
    | none =>
      if c = '}' then
        ([{ token := Token.literal (c :: s.pending).reverse }] ++ implied, next [])
      else if c = '*' then (s.flush, next [c])
      else (implied, next (c :: s.pending))
  else (implied, next (c :: s.pending))

/-- The lexemes of the rest of a text. -/
def scan (s : Scanner) : Text → List Lexeme
  | [] => s.flush
  | c :: rest => (s.step c).1 ++ scan (s.step c).2 rest

end Scanner

/-- The lexemes of a text. -/
def lexemes (t : Text) : List Lexeme :=
  Scanner.scan {} t

/-- The tokens of a text. -/
def tokenize (t : Text) : List Token :=
  (lexemes t).map Lexeme.token

end Shorthand
