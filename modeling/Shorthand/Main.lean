import Shorthand.Standard

/-!
# The program

Runs the command line on the files of the working directory. Watched files are read once a second to
see whether they have changed.
-/

namespace Shorthand

/-- The files of a directory's entries. -/
partial def readEntries : List IO.FS.DirEntry → IO FileTree
  | [] => return .nil
  | entry :: rest => do
    let name := entry.fileName.toList
    let others ← readEntries rest
    if ← entry.path.isDir then
      return .folder name (← readEntries (← entry.path.readDir).toList) others
    else
      try
        return .file name { content := (← IO.FS.readBinFile entry.path).toList } others
      catch _ => return others

/-- The session that starts in the working directory. -/
def openSession : IO Session := do
  let here ← IO.currentDir
  return {
    home := Path.parse here.toString.toList
    files := ← readEntries (← here.readDir).toList }

/-- The content of a file of a tree. -/
def contentAt (files : FileTree) (names : List Text) : Option (List UInt8) :=
  match files.lookup names with
  | .ok (.file f) => some f.content
  | _ => none

/-- Writes the files of a session that differ from those before it, and prints its console. -/
def closeSession (before : FileTree) (s : Session) : IO Unit := do
  for (names, file) in s.files.listing [] do
    if let some f := file then
      if contentAt before names != some f.content then
        let path : Path := { parts := names }
        IO.FS.writeBinFile (String.ofList path.display) f.content.toByteArray
  let console := (s.snapshots.map Snapshot.console).flatten ++ s.console
  IO.print (String.ofList console)
  (← IO.getStdout).flush

/-- Reports a fault that ends the program. -/
def fail (fault : Fault) : IO UInt32 := do
  IO.eprintln (String.ofList fault.message)
  return 1

/-- The contents of the watched files. -/
def readWatched (watched : List Path) : IO (List (Path × Option ByteArray)) :=
  watched.mapM fun path => do
    try
      return (path, some (← IO.FS.readBinFile (String.ofList path.display)))
    catch _ => return (path, none)

/-- Handles the changes of the watched files, once a second. -/
partial def poll (w : Watch) (watched : List Path) (known : List (Path × Option ByteArray)) :
    IO UInt32 := do
  IO.sleep 1000
  let current ← readWatched watched
  for ((path, old), (_, new)) in known.zip current do
    if old.map (·.toList) != new.map (·.toList) then
      let session ← openSession
      let (after, fault) := w.handle watched session (.file path)
      closeSession session.files after
      if let some fault := fault then
        IO.eprintln (String.ofList fault.message)
  poll w watched current

/-- Starts the watcher, as often as its settings cannot be used. -/
partial def watchFiles (config : Text) : IO UInt32 := do
  let session ← openSession
  let around := Surroundings.standard
  let attempt : Session × Except Fault (Option (Watch × List Path)) :=
    match CommandLine.prepare around session.files config with
    | .error fault => (session, .error fault)
    | .ok w =>
      let (s, started) := w.start around.observe session
      (s, started.map fun watched => watched.map fun (paths, _) => (w, paths))
  match attempt with
  | (s, .ok (some (w, watched))) =>
    closeSession session.files s
    poll w watched (← readWatched watched)
  | (s, .ok none) =>
    closeSession session.files s
    return 0
  | (s, .error fault) =>
    if fault.isRetried then
      closeSession session.files (CommandLine.reportFault fault s)
      IO.sleep (1000 * CommandLine.retrySeconds.toUInt32)
      watchFiles config
    else
      closeSession session.files s
      fail fault

/-- Runs the program with some arguments. -/
def runProgram (arguments : List String) : IO UInt32 := do
  match Arguments.parse (arguments.map String.toList) with
  | .error code =>
    IO.eprintln "usage: [-h] [--once] [-e ABBR] [config]"
    return code.toUInt32
  | .ok a =>
    match a.expand, a.config.filter (!·.isEmpty), a.once with
    | none, some config, false => watchFiles config
    | _, _, _ =>
      let session ← openSession
      let (after, ending) := CommandLine.dispatch a Surroundings.standard session
      closeSession session.files after
      match ending with
      | .returned code => return code.toUInt32
      | .exited code => return code.toUInt32
      | .interrupted => return 130
      | .failed fault => fail fault

end Shorthand

/-- Runs the command line. -/
def main (arguments : List String) : IO UInt32 :=
  Shorthand.runProgram arguments
