import Shorthand.Text.Basic

/-!
# Paths

A path is written as names with slashes between them. Empty names and `.` mean nothing, so two
spellings may be one path; `..` is kept, because what it means depends on the files.

- `Path.parse`, `Path.display`: reading and writing a path.
- `Path.normal`: a path without the `..` that follow a name.
-/

namespace Shorthand

/-- A path. -/
structure Path where
  /-- The slashes at the start of an absolute path, one or two; none for a path that starts at the
  working directory. -/
  root : Text := []
  parts : List Text := []
  deriving DecidableEq, Repr

namespace Path

/-- The part that leads to the enclosing directory. -/
def up : Text := ['.', '.']

/-- The names between the slashes of a text, without the empty ones and `.`. -/
def splitParts (t : Text) : List Text :=
  (t.splitOn '/').filter fun part => !part.isEmpty && part != ['.']

/-- The path that a text writes. Two slashes at its start are kept apart from one; more count as
one. -/
def parse (t : Text) : Path :=
  let slashes := (t.takeWhile (· == '/')).length
  { root := if slashes = 0 then [] else if slashes = 2 then ['/', '/'] else ['/']
    parts := splitParts t }

/-- A path as text, `.` for the working directory. -/
def display (p : Path) : Text :=
  if p.root.isEmpty && p.parts.isEmpty then ['.']
  else p.root ++ List.intercalate ['/'] p.parts

/-- A path with the parts of another one after its own. -/
def append (p : Path) (parts : List Text) : Path :=
  { p with parts := p.parts ++ parts }

/-- The path of the enclosing directory, by its spelling. -/
def parent (p : Path) : Path :=
  { p with parts := p.parts.dropLast }

/-- The parts after one more part, where `..` takes back the name before it. At the root of an
absolute path it leads nowhere. -/
def normalPart (atRoot : Bool) (before : List Text) (part : Text) : List Text :=
  if part = up then
    match before with
    | [] => if atRoot then [] else [up]
    | last :: rest => if last = up then up :: before else rest
  else part :: before

/-- A path without the `..` that follow a name. -/
def normal (p : Path) : Path :=
  { p with parts := (p.parts.foldl (normalPart (!p.root.isEmpty)) []).reverse }

end Path

end Shorthand
