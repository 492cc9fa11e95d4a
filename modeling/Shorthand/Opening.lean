import Shorthand.Fault
import Shorthand.FileTree

/-!
# Opening files

What comes of a path that is given to the system. The system takes no path with the character NUL,
and neither names nor whole paths beyond a length. What is too long is an error like that of a
missing file; NUL is a fault, which nobody looks out for when a file is opened.

- `FileTree.isTooLong`: the paths that are refused for their length.
- `FileTree.openRead`, `openWrite`: reading and writing by way of a path.
- `FileTree.testFolder`, `testEntry`: asking what a path leads to.
-/

namespace Shorthand

/-- Why a file is not read or written. -/
inductive FileFailure
  /-- The file system refuses. -/
  | file (error : FileError)
  /-- What is asked for, or what the file holds, cannot be used. -/
  | fault (fault : Fault)
  deriving DecidableEq, Repr

/-- The largest number of bytes in a name. -/
def maxNameBytes : Nat := 255

/-- The largest number of bytes in a path. -/
def maxPathBytes : Nat := 4095

/-- A name that no directory can hold. -/
def isLongName (name : Text) : Bool :=
  maxNameBytes < (encodeUtf8 name).length

namespace Path

/-- A path with the character NUL. -/
def hasNull (p : Path) : Bool :=
  p.parts.any (·.contains (Char.ofNat 0))

/-- A path that is too long, whatever it leads to. -/
def isOverlong (p : Path) : Bool :=
  maxPathBytes < (encodeUtf8 p.display).length

/-- The path up to its first name that is too long. -/
def beforeLongName (p : Path) : Path :=
  { p with parts := p.parts.takeWhile (!isLongName ·) }

end Path

namespace FileTree

/-- A path that is refused for its length. A name that is too long is noticed only in a directory
that the path comes to. -/
def isTooLong (t : FileTree) (p : Path) : Bool :=
  p.isOverlong || (p.parts.any isLongName && t.isFolder p.beforeLongName)

/-- The result of an operation by way of a path, unless the system does not take the path. -/
def opening {α : Type} (t : FileTree) (p : Path) (result : Except FileError α) :
    Except FileFailure α :=
  if p.hasNull then .error (.fault .nullInPath)
  else if t.isTooLong p then .error (.file .nameTooLong)
  else result.mapError .file

/-- The file that a path leads to, opened for reading. -/
def openRead (t : FileTree) (p : Path) : Except FileFailure File :=
  t.opening p (t.read p)

/-- The tree with a file changed that is opened for writing. -/
def openWrite (t : FileTree) (p : Path) (change : File → File) : Except FileFailure FileTree :=
  t.opening p (t.write p change)

/-- The answer to a question about a path. There is nothing at a path with the character NUL; one
that is too long cannot be asked about. -/
def testing (t : FileTree) (p : Path) (answer : Bool) : Except Fault Bool :=
  if p.hasNull then .ok false
  else if t.isTooLong p then .error (.nameTooLong p.display)
  else .ok answer

/-- Whether a path leads to a directory. -/
def testFolder (t : FileTree) (p : Path) : Except Fault Bool :=
  t.testing p (t.isFolder p)

/-- Whether a path leads to anything. -/
def testEntry (t : FileTree) (p : Path) : Except Fault Bool :=
  t.testing p (t.entry p).toBool

end FileTree

end Shorthand
