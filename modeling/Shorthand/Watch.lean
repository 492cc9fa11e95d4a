import Shorthand.Recompile
import Shorthand.Session

/-!
# Watching files

All write pairs are recompiled once, and again whenever a watched file changes, until the run is
interrupted. What watches the directories is given from outside.

- `WatchStep`, `FileEvent`: what happens in one second.
- `Observer`: what watches directories.
- `Watch.start`, `handle`, `stop`: the start of a run, the reaction to an event, and the end.
- `Watch.run`: a whole run.
-/

namespace Shorthand

/-- A change that the observer reports. -/
inductive FileEvent
  | file (path : Path)
  | folder (path : Path)
  deriving DecidableEq, Repr

/-- What happens in one second of watching: files are written, then others removed, then an event is
reported. -/
structure WatchStep where
  written : List (Path × List UInt8) := []
  removed : List Path := []
  event : Option FileEvent := none
  deriving Repr

/-- An observer: what happens once some directories are watched, or why they cannot be. It may depend
on all that was done before, as far as the session shows it. -/
abbrev Observer := Session → List Path → Except Fault (List WatchStep)

namespace FileTree

/-- The tree after files are written from outside, with the directories on the way to them. -/
def writeAll (files : FileTree) (written : List (Path × List UInt8)) : FileTree :=
  written.foldl (fun t (path, content) =>
    match t.makeFolders path.parent with
    | .error _ => t
    | .ok made =>
      match made.write path fun f => { f with content } with
      | .error _ => made
      | .ok t' => t') files

/-- The tree after files are removed from outside. -/
def removeAll (files : FileTree) (removed : List Path) : FileTree :=
  removed.foldl (fun t path =>
    match t.remove path with
    | .error _ => t
    | .ok t' => t') files

end FileTree

namespace WatchStep

/-- The session after the files of a step are written and removed. -/
def play (step : WatchStep) (s : Session) : Session :=
  { s with files := (s.files.writeAll step.written).removeAll step.removed }

end WatchStep

/-- What is watched, and what is done about a change. -/
structure Watch where
  encode : Encoder
  compiler : Compiler
  pairs : List WritePair
  /-- The paths that are watched besides the sources. -/
  others : List Path := []

namespace Watch

/-- The occasion of the expansions: markup is never stored in a cache. -/
def occasion : Occasion := {}

/-- The watched paths, the sources first. -/
def paths (w : Watch) : List Path :=
  w.pairs.map WritePair.src ++ w.others

/-- The session after all pairs are recompiled, and the fault that ended it. -/
def recompileAll (w : Watch) (s : Session) : Session × Option Fault :=
  let (files, count) := recompile w.encode w.compiler occasion s.files w.pairs
  ({ s with files }, match count with
    | .ok _ => none
    | .error fault => some fault)

/-- The session after an event, and the fault of its recompilation. Events of directories and of
files that are not watched change nothing. -/
def handle (w : Watch) (watched : List Path) (s : Session) : FileEvent → Session × Option Fault
  | .folder _ => (s, none)
  | .file path =>
    match s.resolve path with
    | .error fault => (s, some fault)
    | .ok path =>
      if watched.contains path then
        w.recompileAll
          (s.print ("\nDetected modification in: ".toList ++ path.display))
      else (s, none)

/-- The session after one step, with a snapshot. -/
def step (w : Watch) (watched : List Path) (s : Session) (step : WatchStep) : Session :=
  let s := step.play s
  let (s, fault) := match step.event with
    | none => (s, none)
    | some event => w.handle watched s event
  s.snapshot fault

/-- Whether the parts of one path come before those of another. -/
def comesBefore (a b : Path) : Bool :=
  !b.parts.lex a.parts fun s t => s.lex t fun c d => c.toNat < d.toNat

/-- The directories of the watched paths, in order and each once. -/
def folders (watched : List Path) : List Path :=
  let all := watched.foldl (fun ps p =>
    if ps.contains p.parent then ps else ps ++ [p.parent]) []
  all.mergeSort comesBefore

/-- The session after the directories that exist are scheduled, one after the other, and which they
are. -/
def scheduleAll (s : Session) : List Path → Session × Except Fault (List Path)
  | [] => (s, .ok [])
  | folder :: rest =>
    match s.testFolder folder with
    | .error fault => (s, .error fault)
    | .ok false => scheduleAll s rest
    | .ok true =>
      let (s, scheduled) := scheduleAll (s.note (.schedule folder)) rest
      (s, scheduled.map (folder :: ·))

/-- The session after the watcher has started, and the watched paths with what happens to them if
there is a directory to watch. -/
def start (w : Watch) (observe : Observer) (s : Session) :
    Session × Except Fault (Option (List Path × List WatchStep)) :=
  match w.recompileAll s with
  | (s, some fault) => (s, .error fault)
  | (s, none) =>
    let s := s.note .observe
    match w.paths.mapM s.resolve with
    | .error fault => (s, .error fault)
    | .ok watched =>
      let s := s.print "Handler initialized. Monitoring for changes...".toList
      match scheduleAll s (folders watched) with
      | (s, .error fault) => (s, .error fault)
      | (s, .ok []) =>
        (s.print "Error: nothing to watch, check the 'write' and 'watch' entries.".toList, .ok none)
      | (s, .ok scheduled) =>
        match observe s scheduled with
        | .error fault => (s, .error fault)
        | .ok steps =>
          ((s.note .start).snapshot.print "Watching for changes. Press Ctrl+C to stop.".toList,
            .ok (some (watched, steps)))

/-- The session after the watcher has stopped. -/
def stop (s : Session) : Session :=
  ((s.note .stop).note .join).print "Watcher stopped.".toList

/-- The session after a whole run of the watcher, and the fault that ended it. -/
def run (w : Watch) (observe : Observer) (s : Session) : Session × Option Fault :=
  match w.start observe s with
  | (s, .error fault) => (s, some fault)
  | (s, .ok none) => (s, none)
  | (s, .ok (some (watched, steps))) => (stop (steps.foldl (w.step watched) s), none)

end Watch

end Shorthand
