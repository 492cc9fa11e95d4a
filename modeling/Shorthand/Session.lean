import Shorthand.Opening

/-!
# Sessions

What a run of the program shows to its surroundings: the files, the console, the actions it takes,
and snapshots of files and console at the moments when something else may look at them.

- `Session.print`, `note`, `snapshot`: one thing shown.
- `Session.resolve`, `testFolder`: paths from the root of the file system, which the working
  directory has a place in.
-/

namespace Shorthand

/-- What a run does besides writing files and text. -/
inductive Action
  /-- An observer of directories is made. -/
  | observe
  | schedule (folder : Path)
  | start
  | stop
  | join
  | sleep (seconds : Nat)
  deriving DecidableEq, Repr

/-- The text printed since the last snapshot and the files at one moment, with the fault of the
event before it if there was one. -/
structure Snapshot where
  console : Text
  files : FileTree
  fault : Option Fault := none
  deriving Repr

/-- A run so far. -/
structure Session where
  /-- The path of the working directory from the root of the file system. -/
  home : Path
  files : FileTree
  /-- The text printed since the last snapshot. -/
  console : Text := []
  actions : List Action := []
  snapshots : List Snapshot := []
  deriving Repr

namespace Session

/-- The session after a line is printed. -/
def print (s : Session) (line : Text) : Session :=
  { s with console := s.console ++ line ++ ['\n'] }

/-- The session after an action. -/
def note (s : Session) (action : Action) : Session :=
  { s with actions := s.actions ++ [action] }

/-- The session after a snapshot. -/
def snapshot (s : Session) (fault : Option Fault := none) : Session :=
  { s with
    console := []
    snapshots := s.snapshots ++ [{ console := s.console, files := s.files, fault }] }

/-- A path from the root of the file system, without `..`. The system is asked on the way, and takes
no path with the character NUL. -/
def resolve (s : Session) (p : Path) : Except Fault Path :=
  if p.hasNull then .error .nullInPath
  else if p.root.isEmpty then .ok (s.home.append p.parts).normal
  else .ok { root := ['/'], parts := p.normal.parts }

/-- Whether a resolved path is a directory: one of the working directory's files, or a directory
around it. -/
def isFolder (s : Session) (p : Path) : Bool :=
  if s.home.parts.isPrefixOf p.parts then
    s.files.isFolder { parts := p.parts.drop s.home.parts.length }
  else p.parts.isPrefixOf s.home.parts

/-- A resolved path that is refused for its length. -/
def isTooLong (s : Session) (p : Path) : Bool :=
  p.isOverlong || (p.parts.any isLongName && s.isFolder p.beforeLongName)

/-- Whether a resolved path leads to a directory, if that can be asked. -/
def testFolder (s : Session) (p : Path) : Except Fault Bool :=
  if s.isTooLong p then .error (.nameTooLong p.display) else .ok (s.isFolder p)

end Session

end Shorthand
