import Shorthand.Path
import Shorthand.Text.Encoding
import Shorthand.Text.Newline

/-!
# File trees

The files below the working directory, each with its content, a time stamp and permission bits. All
operations are functions from trees to trees. The tree itself takes names of any length and with any
characters; what a system refuses is the matter of `Shorthand.Opening`. There are no links, and
every file can be read and written.

- `FileTree.find?`, `put`, `erase`: the entries of one directory.
- `FileTree.lookup`: the entry at the end of a row of names.
- `FileTree.locate`: the row of names that a path leads to, which follows `..` through the tree.
- `FileTree.read`, `write`, `remove`, `makeFolders`, `updateFolder`: what a program does to files.
-/

namespace Shorthand

/-- A file. -/
structure File where
  content : List UInt8 := []
  /-- The time of the last change; for an entry of a cache, the time at which it expires. -/
  stamp : Int := 0
  /-- The permission bits. -/
  mode : Nat := 0o644
  deriving DecidableEq, Repr

/-- The text of a file, with its line ends unified, when its bytes are UTF-8. -/
def File.text? (f : File) : Option Text :=
  (decodeUtf8? f.content).map unifyNewlines

/-- The entries of a directory, one after the other. -/
inductive FileTree
  | nil
  | file (name : Text) (f : File) (rest : FileTree)
  | folder (name : Text) (inside rest : FileTree)
  deriving DecidableEq, Repr

/-- An entry of a directory. -/
inductive FileEntry
  | file (f : File)
  | folder (inside : FileTree)
  deriving DecidableEq, Repr

/-- Why a file operation fails. -/
inductive FileError
  | noEntry
  | notDirectory
  | isDirectory
  | nameTooLong
  deriving DecidableEq, Repr

/-- The number and text of a file error. -/
def FileError.message : FileError → Text
  | noEntry => "[Errno 2] No such file or directory".toList
  | notDirectory => "[Errno 20] Not a directory".toList
  | isDirectory => "[Errno 21] Is a directory".toList
  | nameTooLong => "[Errno 36] File name too long".toList

namespace FileTree

/-! ## One directory -/

/-- The entry of a name. -/
def find? : FileTree → Text → Option FileEntry
  | nil, _ => none
  | file n f rest, name => if n = name then some (.file f) else rest.find? name
  | folder n inside rest, name => if n = name then some (.folder inside) else rest.find? name

/-- One entry before others. -/
def cons (name : Text) (e : FileEntry) (rest : FileTree) : FileTree :=
  match e with
  | .file f => file name f rest
  | .folder inside => folder name inside rest

/-- The directory with an entry put in the place of the one of the same name, else at the end. -/
def put (name : Text) (e : FileEntry) : FileTree → FileTree
  | nil => cons name e nil
  | file n f rest => if n = name then cons name e rest else file n f (rest.put name e)
  | folder n inside rest =>
    if n = name then cons name e rest else folder n inside (rest.put name e)

/-- The directory without the entries of a name. -/
def erase (name : Text) : FileTree → FileTree
  | nil => nil
  | file n f rest => if n = name then rest.erase name else file n f (rest.erase name)
  | folder n inside rest =>
    if n = name then rest.erase name else folder n inside (rest.erase name)

/-- The names of a directory and their entries. -/
def entries : FileTree → List (Text × FileEntry)
  | nil => []
  | file n f rest => (n, .file f) :: rest.entries
  | folder n inside rest => (n, .folder inside) :: rest.entries

/-- A directory without entries. -/
def isEmpty : FileTree → Bool
  | nil => true
  | _ => false

/-! ## Rows of names -/

/-- The entry at the end of a row of names; no names lead to the directory itself. -/
def lookup (t : FileTree) : List Text → Except FileError FileEntry
  | [] => .ok (.folder t)
  | name :: rest =>
    match t.find? name with
    | none => .error .noEntry
    | some (.folder inside) => inside.lookup rest
    | some (.file f) => if rest.isEmpty then .ok (.file f) else .error .notDirectory

/-- The tree with the entry at the end of a row of names changed; its directory must exist. An entry
is removed by changing it to none. -/
def alter (change : Option FileEntry → Except FileError (Option FileEntry)) (t : FileTree) :
    List Text → Except FileError FileTree
  | [] => .error .isDirectory
  | [name] => do
    match ← change (t.find? name) with
    | some e => return t.put name e
    | none => return t.erase name
  | name :: rest => do
    match t.find? name with
    | none => .error .noEntry
    | some (.file _) => .error .notDirectory
    | some (.folder inside) => return t.put name (.folder (← inside.alter change rest))

/-! ## Paths -/

/-- The row of names that parts lead to from the directory at `here`. -/
def follow (t : FileTree) (here : List Text) : List Text → Except FileError (List Text)
  | [] => .ok here
  | part :: rest =>
    if part = Path.up then
      match t.lookup here with
      | .error e => .error e
      | .ok (.file _) => .error .notDirectory
      | .ok (.folder _) =>
        if here.isEmpty then .error .noEntry else t.follow here.dropLast rest
    else t.follow (here ++ [part]) rest

/-- The row of names that a path leads to. Nothing outside the tree is known, and no absolute path
leads into it, not even one through the place of the working directory. -/
def locate (t : FileTree) (p : Path) : Except FileError (List Text) :=
  if p.root.isEmpty then t.follow [] p.parts else .error .noEntry

/-- The entry that a path leads to. -/
def entry (t : FileTree) (p : Path) : Except FileError FileEntry := do
  t.lookup (← t.locate p)

/-- Whether a path leads to a directory. -/
def isFolder (t : FileTree) (p : Path) : Bool :=
  match t.entry p with
  | .ok (.folder _) => true
  | _ => false

/-- The file that a path leads to. -/
def read (t : FileTree) (p : Path) : Except FileError File := do
  match ← t.entry p with
  | .file f => return f
  | .folder _ => .error .isDirectory

/-- The change of a file, which is made when there is none. -/
def changingFile (change : File → File) : Option FileEntry → Except FileError (Option FileEntry)
  | none => .ok (some (.file (change {})))
  | some (.file f) => .ok (some (.file (change f)))
  | some (.folder _) => .error .isDirectory

/-- The tree with a file changed, which is made when there is none and its directory exists. -/
def write (t : FileTree) (p : Path) (change : File → File) : Except FileError FileTree := do
  t.alter (changingFile change) (← t.locate p)

/-- The change that removes a file. -/
def removing : Option FileEntry → Except FileError (Option FileEntry)
  | none => .error .noEntry
  | some (.file _) => .ok none
  | some (.folder _) => .error .isDirectory

/-- The tree without a file. -/
def remove (t : FileTree) (p : Path) : Except FileError FileTree := do
  t.alter removing (← t.locate p)

/-- The change that makes a directory where there is none. -/
def makingFolder : Option FileEntry → Except FileError (Option FileEntry)
  | none => .ok (some (.folder nil))
  | some (.folder inside) => .ok (some (.folder inside))
  | some (.file _) => .error .notDirectory

/-- The tree with the directories on the way along `parts` from `here` made where they are
missing. -/
def makeAlong (t : FileTree) (here : List Text) : List Text → Except FileError FileTree
  | [] => .ok t
  | part :: rest =>
    if part = Path.up then
      if here.isEmpty then .error .noEntry else t.makeAlong here.dropLast rest
    else do (← t.alter makingFolder (here ++ [part])).makeAlong (here ++ [part]) rest

/-- The tree with a directory, and those on the way to it, made where they are missing. -/
def makeFolders (t : FileTree) (p : Path) : Except FileError FileTree :=
  if p.root.isEmpty then t.makeAlong [] p.parts else .error .noEntry

/-- The change of the entries of a directory that must exist. -/
def changingFolder (change : FileTree → FileTree) :
    Option FileEntry → Except FileError (Option FileEntry)
  | none => .error .noEntry
  | some (.folder inside) => .ok (some (.folder (change inside)))
  | some (.file _) => .error .notDirectory

/-- The tree with the entries of a directory changed. -/
def updateFolder (t : FileTree) (p : Path) (change : FileTree → FileTree) :
    Except FileError FileTree := do
  match ← t.locate p with
  | [] => return change t
  | names => t.alter (changingFolder change) names

/-! ## Listing -/

/-- All files below a directory, each with the row of names that leads to it, and the directories
that hold nothing. -/
def listing (here : List Text) : FileTree → List (List Text × Option File)
  | nil => []
  | file n f rest => (here ++ [n], some f) :: rest.listing here
  | folder n nil rest => (here ++ [n], none) :: rest.listing here
  | folder n inside rest => inside.listing (here ++ [n]) ++ rest.listing here

end FileTree

end Shorthand
