import Shorthand.Arguments
import Shorthand.Watch

/-!
# The command line

With `--expand` one abbreviation is expanded and printed, with `--once` the write pairs are
recompiled once, and otherwise the watcher runs. A watcher whose settings cannot be used says so
and tries again.

- `Ending`: how a run ends.
- `Surroundings`: what a run takes from outside.
- `CommandLine.run`: a whole run.
-/

namespace Shorthand

/-- How a run ends. -/
inductive Ending
  | returned (code : Nat)
  /-- The arguments were not understood, or help was asked for. -/
  | exited (code : Nat)
  | interrupted
  | failed (fault : Fault)
  deriving DecidableEq, Repr

/-- What a run takes from outside. -/
structure Surroundings where
  /-- The reader of settings documents. -/
  read : DocumentReader
  /-- The encoder of what is written. -/
  encode : Encoder
  /-- The observer of the watched directories. -/
  observe : Observer
  /-- The files written in each sleep; the run is interrupted in the sleep after them. -/
  sleeps : List (List (Path × List UInt8)) := []

/-- Whether a watcher reports a fault and tries again. -/
def Fault.isRetried : Fault → Bool
  | .settings _ => true
  | .missingEntry _ => true
  | .wrongType _ => true
  | _ => false

namespace CommandLine

/-- The seconds between two tries. -/
def retrySeconds : Nat := 3

/-- The compiler and the pairs of a settings file, with the watched paths. -/
def prepare (around : Surroundings) (files : FileTree) (config : Text) : Except Fault Watch := do
  let settings ← Settings.load around.read files config
  let others ← settings.watched files
  let pairs ← settings.writePairs
  let compiler ← settings.compiler files
  return { encode := around.encode, compiler, pairs, others }

/-- Expands one abbreviation, which needs no settings. -/
def expandOne (around : Surroundings) (config : Option Text) (abbreviation : Text) (s : Session) :
    Session × Ending :=
  let result : Except Fault Outcome := do
    let settings ←
      match config with
      | some path => Settings.load around.read s.files path
      | none => .ok (Settings.defaults.set (.text "indented".toList) (.bool false))
    let compiler ← settings.compiler s.files
    return compiler.expand Watch.occasion s.files abbreviation
  match result with
  | .error fault => (s, .failed fault)
  | .ok outcome =>
    let s := { s with files := outcome.files }
    match outcome.output with
    | .error fault => (s, .failed fault)
    | .ok markup => (s.print markup, .returned 0)

/-- Recompiles the pairs of a settings file once. The code tells whether all were written. -/
def recompileOnce (around : Surroundings) (config : Text) (s : Session) : Session × Ending :=
  match prepare around s.files config with
  | .error fault => (s, .failed fault)
  | .ok w =>
    match recompile w.encode w.compiler Watch.occasion s.files w.pairs with
    | (files, .error fault) => ({ s with files }, .failed fault)
    | (files, .ok count) =>
      ({ s with files }, .returned (if count = w.pairs.length then 0 else 1))

/-- One try of the watcher. -/
def watchOnce (around : Surroundings) (config : Text) (s : Session) : Session × Option Fault :=
  match prepare around s.files config with
  | .error fault => (s, some fault)
  | .ok w => w.run around.observe s

/-- Says what is wrong and sleeps. -/
def reportFault (fault : Fault) (s : Session) : Session :=
  let s := s.print ("Error: ".toList ++ fault.message)
  let s := s.print
    "Please check your configuration and try again, attempting to reload in 3 seconds...".toList
  (s.note (.sleep retrySeconds)).snapshot

/-- Watches the files of a settings file; each sleep leads to one more try. -/
def watch (around : Surroundings) (config : Text) (sleeps : List (List (Path × List UInt8)))
    (s : Session) : Session × Ending :=
  match watchOnce around config s with
  | (s, none) => (s, .returned 0)
  | (s, some fault) =>
    if fault.isRetried then
      let s := reportFault fault s
      match sleeps with
      | [] => (s, .interrupted)
      | written :: rest => watch around config rest { s with files := s.files.writeAll written }
    else (s, .failed fault)

/-- What parsed arguments ask for. -/
def dispatch (a : Arguments) (around : Surroundings) (s : Session) : Session × Ending :=
  let config := a.config.filter (!·.isEmpty)
  match a.expand, config with
  | some abbreviation, config => expandOne around config abbreviation s
  | none, none =>
    (s.print "Error: a configuration file is required unless --expand is given.".toList,
      .returned 2)
  | none, some path =>
    if a.once then recompileOnce around path s else watch around path around.sleeps s

/-- A run with some arguments, with a snapshot at its end. -/
def run (arguments : List Text) (around : Surroundings) (s : Session) : Session × Ending :=
  match Arguments.parse arguments with
  | .error code => (s.snapshot, .exited code)
  | .ok a =>
    let (s, ending) := dispatch a around s
    (s.snapshot, ending)

end CommandLine

end Shorthand
