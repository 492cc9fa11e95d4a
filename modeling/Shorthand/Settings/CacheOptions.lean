import Shorthand.Cache
import Shorthand.Opening
import Shorthand.Value

/-!
# Cache options

The options of a cache as settings give them. An option is kept as it was written until it is put to
use, so one of the wrong kind is a fault only then.

- `CacheOptions.make`: the options of a cache in a directory that must exist. A directory whose
  path is too long cannot be asked about.
- `CacheOptions.cache`: the cache with these options, or the fault at its first use.
-/

namespace Shorthand

/-- A path that a value names. -/
def Path.ofValue : Value → Except Fault Path
  | .scalar (.text t) => .ok (Path.parse t)
  | v => .error (.wrongType (.notPath v.kind))

/-- The integer that a value is; a truth value is zero or one. -/
def Value.integer? : Value → Option Int
  | .scalar (.int z) => some z
  | .scalar (.bool b) => some (if b then 1 else 0)
  | _ => none

/-- Whether a number is greater than zero. -/
def Value.isPositive : Value → Except Fault Bool
  | .scalar (.int z) => .ok (0 < z)
  | .scalar (.bool b) => .ok b
  | .scalar (.real bits) =>
    .ok (0 < bits.toNat && bits.toNat ≤ Binary64.infinity)
  | v => .error (.wrongType (.notComparable v.fullKind))

/-- The options of a cache, as they were written. -/
structure CacheOptions where
  directory : Path
  dirLevel : Value := .int 0
  gcProbability : Value := .int 10
  fileMode : Value := .null
  dirMode : Value := .int 0o775
  extension : Value := .text ".xml".toList
  duration : Value := .int oneYear
  deriving Repr

namespace CacheOptions

/-- The options that entries give, the others as they are by default. -/
def ofEntries (directory : Path) (entries : List (Scalar × Value)) : CacheOptions :=
  let option (name : String) (default : Value) : Value :=
    (Value.entry? entries (.text name.toList)).getD default
  { directory
    dirLevel := option "dir_level" (.int 0)
    gcProbability := option "gc_probability" (.int 10)
    fileMode := option "file_mode" .null
    dirMode := option "dir_mode" (.int 0o775)
    extension := option "extension" (.text ".xml".toList)
    duration := option "duration" (.int oneYear) }

/-- The options of a cache in a directory, which must exist. A duration that is not positive is one
year. -/
def make (files : FileTree) (directory : Value) (entries : List (Scalar × Value)) :
    Except Fault CacheOptions := do
  let path ← Path.ofValue directory
  if !(← files.testFolder path) then .error (.settings (.cacheNotWritable path.display))
  else
    let options := ofEntries path entries
    if ← options.duration.isPositive then return options
    else return { options with duration := .int oneYear }

/-- The cache with these options. The options that lead to a file must be an integer and a text; any
other one that is no integer counts as not given. -/
def cache (o : CacheOptions) : Except Fault Cache := do
  let some dirLevel := o.dirLevel.integer?
    | .error (.wrongType (.notInteger o.dirLevel.fullKind))
  let .scalar (.text extension) := o.extension
    | .error (.wrongType (.notJoinable o.extension.fullKind))
  return {
    directory := o.directory
    dirLevel
    gcProbability := o.gcProbability.integer?.getD 10
    fileMode := o.fileMode.integer?.map Int.toNat
    extension
    duration := o.duration.integer?.getD oneYear }

end CacheOptions

end Shorthand
