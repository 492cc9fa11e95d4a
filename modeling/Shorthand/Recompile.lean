import Shorthand.Settings.Paths

/-!
# Recompiling

The markup of each source is written to its destination. A source that the system does not let be
read or a destination that it does not let be written is passed over; any other fault ends the run.

- `expandFile`: one pair. The destination is emptied before the source is expanded.
- `recompile`: all pairs, with the number that were written.

Paths lead into the tree of files only from the working directory; an absolute path of a pair leads
to nothing.
-/

namespace Shorthand

/-- The files after a pair's source is expanded into its destination, and why that failed if it
did. -/
def expandFile (encode : Encoder) (c : Compiler) (o : Occasion) (files : FileTree)
    (pair : WritePair) : FileTree × Except FileFailure Unit :=
  match files.openRead pair.src with
  | .error e => (files, .error e)
  | .ok f =>
    match f.text? with
    | none => (files, .error (.fault .notUtf8))
    | some source =>
      match files.openWrite pair.dst fun f => { f with content := [], stamp := o.storeTime } with
      | .error e => (files, .error e)
      | .ok emptied =>
        let outcome := c.expand o emptied source
        match outcome.output with
        | .error fault => (outcome.files, .error (.fault fault))
        | .ok markup =>
          match encode markup with
          | none => (outcome.files, .error (.fault .notEncodable))
          | some bytes =>
            match outcome.files.write pair.dst fun f => { f with content := bytes } with
            | .error e => (outcome.files, .error (.file e))
            | .ok written => (written, .ok ())

/-- The files after all pairs are expanded, and the number that were written, or the fault that
ended the run. -/
def recompile (encode : Encoder) (c : Compiler) (o : Occasion) (files : FileTree) :
    List WritePair → FileTree × Except Fault Nat
  | [] => (files, .ok 0)
  | pair :: rest =>
    match expandFile encode c o files pair with
    | (files, .error (.fault fault)) => (files, .error fault)
    | (files, .error (.file _)) => recompile encode c o files rest
    | (files, .ok ()) =>
      let (files, count) := recompile encode c o files rest
      (files, count.map (· + 1))

end Shorthand
