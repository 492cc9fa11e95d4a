import Shorthand.Pattern
import Shorthand.Settings.Basic

/-!
# Paths in settings

- `Settings.watched`: the paths that the watch patterns lead to.
- `Settings.writePairs`: the sources with their destinations. Two spellings of one source are one
  source, which keeps its first place and its last destination.
-/

namespace Shorthand

/-- A source with the destination of its markup. -/
structure WritePair where
  src : Path
  dst : Path
  deriving DecidableEq, Repr

namespace Settings

/-- The value of an entry that must be there. -/
def require (s : Settings) (name : String) : Except Fault Value :=
  match s.get? name with
  | some v => .ok v
  | none => .error (.missingEntry (quoted name.toList))

/-- The items of a value that is gone through: of a list, the characters of a text, the keys of a
mapping. -/
def itemsOf : Value → Except Fault (List Value)
  | .list items => .ok items
  | .scalar (.text t) => .ok (t.map fun c => .text [c])
  | .mapping entries => .ok (entries.map fun e => .scalar e.1)
  | v => .error (.wrongType (.notIterable v.fullKind))

/-! ## Watch patterns -/

/-- The pattern that a value writes. -/
def patternOf (v : Value) : Except Fault Pattern :=
  if v.isFalsy then do .error (.badPattern (.unacceptable (← v.inspect)))
  else
    match v with
    | .scalar (.text t) =>
      match Pattern.parse t with
      | .ok p => .ok p
      | .error cause => .error (.badPattern cause)
    | .list _ => .error (.wrongType (.notInternable v.kind))
    | .mapping entries =>
      match Value.entry? entries (.int 0) with
      | none => .error (.missingEntry ['0'])
      | some _ => .error (.wrongType (.notInternable v.kind))
    | _ => .error (.wrongType (.notIndexable v.fullKind))

/-- The paths that patterns lead to, added to those before, each once. -/
def addWatched (files : FileTree) (before : List Path) : List Value → Except Fault (List Path)
  | [] => .ok before
  | v :: rest => do
    let found := (← Pattern.select files (← patternOf v) []).map fun parts => { parts }
    addWatched files (found.foldl (fun ps p => if ps.contains p then ps else ps ++ [p]) before) rest

/-- The paths that the watch patterns lead to, each once. -/
def watched (s : Settings) (files : FileTree) : Except Fault (List Path) := do
  addWatched files [] (← itemsOf (← s.require "watch"))

/-! ## Write pairs -/

/-- The value of an item's key. -/
def entryOf (name : String) : Value → Except Fault Value
  | .mapping entries =>
    match Value.entry? entries (.text name.toList) with
    | some v => .ok v
    | none => .error (.missingEntry (quoted name.toList))
  | .scalar (.text _) => .error (.wrongType .textIndexedByText)
  | .list _ => .error (.wrongType .listIndexedByText)
  | v => .error (.wrongType (.notIndexable v.fullKind))

/-- The pair that an item of the write list describes. -/
def pairOf (item : Value) : Except Fault WritePair := do
  let src ← Path.ofValue (← entryOf "src" item)
  let dst ← Path.ofValue (← entryOf "dst" item)
  return { src, dst }

/-- The pairs with one more, which takes the place of one with the same source. -/
def putPair (pair : WritePair) : List WritePair → List WritePair
  | [] => [pair]
  | p :: rest => if p.src = pair.src then pair :: rest else p :: putPair pair rest

/-- The pairs of the write list. -/
def writePairs (s : Settings) : Except Fault (List WritePair) := do
  let items ← itemsOf (← s.require "write")
  items.foldlM (fun pairs item => return putPair (← pairOf item) pairs) []

end Settings

end Shorthand
