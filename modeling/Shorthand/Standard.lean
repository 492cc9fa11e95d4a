import Shorthand.CommandLine
import Shorthand.Document.Meaning

/-!
# Standard surroundings

The surroundings that the program itself has: the reader of documents of this library and UTF-8 in
files. What the observer sees and what happens in the sleeps is left to be given.
-/

namespace Shorthand

/-- The standard surroundings, in which the steps are all that happens while directories are
watched, and the files are written in the sleeps. -/
def Surroundings.standard (steps : List WatchStep := [])
    (sleeps : List (List (Path × List UInt8)) := []) : Surroundings where
  read := Document.read
  encode := .utf8
  observe _ _ := .ok steps
  sleeps := sleeps

end Shorthand
