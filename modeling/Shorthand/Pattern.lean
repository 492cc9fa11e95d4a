import Shorthand.Opening

/-!
# Path patterns

A pattern names files by parts between slashes. In a part, `*` stands for any characters, `?` for
one and `[..]` for one of a set; a part `**` stands for any number of directories.

- `NamePiece`: a piece of a part; `NamePiece.matchAll` matches a file name.
- `Pattern.parse`: the parts of a pattern, or why it is refused.
- `Pattern.select`: the paths that a pattern leads to. It fails where a single name of the pattern is
  too long to be asked about.
-/

namespace Shorthand

/-! ## Names -/

/-- A set of characters between brackets: the characters of some rows, and the ranges from the last
character of each row to the first of the next. -/
structure CharSet where
  negated : Bool
  rows : List Text
  deriving DecidableEq, Repr

/-- A piece of a pattern for one name. -/
inductive NamePiece
  | star
  | any
  | one (c : Char)
  | set (s : CharSet)
  deriving DecidableEq, Repr

namespace CharSet

/-- The rows between the hyphens of a set. A hyphen within the first `skip` characters, or right
after another one's range, stands for itself, and so does one at the end. -/
def split (skip : Nat) (fuel : Nat) (t : Text) : List Text :=
  match fuel with
  | 0 => [t]
  | fuel + 1 =>
    let before := t.take skip ++ (t.drop skip).takeWhile (· != '-')
    match t.drop before.length with
    | [] => [t]
    | _ :: [] => [before ++ ['-']]
    | _ :: rest => before :: split 2 fuel rest

/-- The rows without the ranges that are empty. -/
def dropEmptyRanges : List Text → List Text
  | [] => []
  | row :: rest =>
    match dropEmptyRanges rest with
    | [] => [row]
    | next :: others =>
      match row.getLast?, next.head? with
      | some a, some b =>
        if b < a then (row.dropLast ++ next.drop 1) :: others else row :: next :: others
      | _, _ => row :: next :: others

/-- The set that the inside of brackets writes. An exclamation mark at its start negates it. -/
def parse (t : Text) : CharSet :=
  match dropEmptyRanges (split (if t.head? = some '!' then 2 else 1) t.length t) with
  | ('!' :: row) :: rest => ⟨true, row :: rest⟩
  | rows => ⟨false, rows⟩

/-- Whether a character is in a range between two neighbouring rows. -/
def inRanges (c : Char) : List Text → Bool
  | row :: next :: rest =>
    (match row.getLast?, next.head? with
      | some a, some b => a ≤ c && c ≤ b
      | _, _ => false) || inRanges c (next :: rest)
  | _ => false

/-- Whether a character is in the set. -/
def contains (s : CharSet) (c : Char) : Bool :=
  (s.rows.any (·.contains c) || inRanges c s.rows) != s.negated

end CharSet

namespace NamePiece

/-- Splits a text at the first `]` after its first `n` characters. -/
def splitAtClose (n : Nat) (t : Text) : Option (Text × Text) :=
  match (t.drop n).dropWhile (· != ']') with
  | [] => none
  | _ :: rest => some (t.take n ++ (t.drop n).takeWhile (· != ']'), rest)

theorem length_splitAtClose {n : Nat} {t : Text} {p : Text × Text}
    (h : splitAtClose n t = some p) : p.2.length < t.length := by
  unfold splitAtClose at h
  split at h
  · simp at h
  · rename_i c rest hd
    have h1 := (List.dropWhile_sublist (l := t.drop n) (· != ']')).length_le
    rw [hd] at h1
    simp only [List.length_cons, List.length_drop] at h1
    simp only [Option.some.injEq] at h
    subst h
    show rest.length < t.length
    omega

/-- The inside of brackets whose opening has been read, and what follows; the closing one is not the
first character. -/
def readSet (t : Text) : Option (Text × Text) :=
  let mark := if t.head? = some '!' then 1 else 0
  splitAtClose (if (t.drop mark).head? = some ']' then mark + 1 else mark) t

/-- The pieces of a part. A bracket that is never closed stands for itself. -/
def parse (t : Text) : List NamePiece :=
  match t with
  | [] => []
  | '*' :: rest => star :: parse rest
  | '?' :: rest => any :: parse rest
  | '[' :: rest =>
    match _ : readSet rest with
    | some (inside, rest') => set (CharSet.parse inside) :: parse rest'
    | none => one '[' :: parse rest
  | c :: rest => one c :: parse rest
termination_by t.length
decreasing_by
  · simp
  · simp
  · have := length_splitAtClose (p := (inside, rest')) ‹_›
    simp at this ⊢; omega
  · simp
  · simp

/-- Whether one character matches a piece. -/
def accepts (c : Char) : NamePiece → Bool
  | star => true
  | any => true
  | one d => c == d
  | set s => s.contains c

/-- Whether a whole name matches the pieces. -/
def matchAll (pieces : List NamePiece) (name : Text) : Bool :=
  match pieces, name with
  | [], name => name.isEmpty
  | star :: rest, [] => matchAll rest []
  | star :: rest, c :: name => matchAll rest (c :: name) || matchAll (star :: rest) name
  | _ :: _, [] => false
  | piece :: rest, c :: name => piece.accepts c && matchAll rest name
termination_by pieces.length + name.length

end NamePiece

/-! ## Paths -/

/-- A part of a pattern. -/
inductive PatternPart
  /-- Any number of directories. -/
  | recursive
  /-- Every name that matches. -/
  | wild (pieces : List NamePiece)
  /-- One name. -/
  | name (name : Text)
  /-- What comes before must be a directory. -/
  | folder
  deriving DecidableEq, Repr

/-- A pattern for paths: its parts from left to right. -/
abbrev Pattern := List PatternPart

namespace Pattern

/-- The part that a text between slashes writes. -/
def parsePart (t : Text) : Except PatternFault PatternPart :=
  if t = "**".toList then .ok .recursive
  else if 0 < Text.occurrences "**".toList t then .error .mixedRecursive
  else if t.any fun c => c == '*' || c == '?' || c == '[' then .ok (.wild (NamePiece.parse t))
  else .ok (.name t)

/-- The pattern that a text writes, or why it is refused. -/
def parse (t : Text) : Except PatternFault Pattern :=
  let parts := Path.splitParts t
  let slash := t.getLast? == some '/'
  if t.head? == some '/' then .error .absolute
  else if parts.isEmpty then .error (if slash then .slashOnly else .partless)
  else do
    let parts ← parts.mapM parsePart
    return if slash then parts ++ [.folder] else parts

/-- The entries of the directory that parts lead to. -/
def entriesAt (files : FileTree) (here : List Text) : FileTree :=
  match files.entry { parts := here } with
  | .ok (.folder inside) => inside
  | _ => .nil

/-- The directories below one, each by the parts that lead to it. -/
def foldersBelow (here : List Text) : FileTree → List (List Text)
  | .nil => []
  | .file _ _ rest => foldersBelow here rest
  | .folder name inside rest =>
    (here ++ [name]) :: foldersBelow (here ++ [name]) inside ++ foldersBelow here rest

/-- The paths that a pattern leads to from a directory, by their parts. All parts but the last lead
to directories. -/
def select (files : FileTree) : Pattern → List Text → Except Fault (List (List Text))
  | [], here => .ok [here]
  | .folder :: _, here => .ok [here]
  | .name n :: rest, here => do
    let path : Path := { parts := here ++ [n] }
    let test := if rest.isEmpty then files.testEntry else files.testFolder
    if ← test path then select files rest path.parts else return []
  | .wild pieces :: rest, here => do
    let matching := (entriesAt files here).entries.filter fun (name, entry) =>
      NamePiece.matchAll pieces name &&
        (rest.isEmpty || match entry with
          | .folder _ => true
          | .file _ => false)
    return (← matching.mapM fun (name, _) => select files rest (here ++ [name])).flatten
  | .recursive :: rest, here => do
    let folders := here :: foldersBelow here (entriesAt files here)
    return (← folders.mapM (select files rest)).flatten

end Pattern

end Shorthand
