import Shorthand.CacheKey
import Shorthand.FileTree

/-!
# The cache

Texts are kept in files, one for each key, below the cache directory. The time stamp of a file is
the time at which its text expires: from then on it is not found, and the next collection removes
it.

- `Cache.pathFor`: the file of a key, in directories named by the first characters of its hash.
- `Cache.lookup`, `store`, `delete`: the text of a key. Failures are answers, not faults.
- `FileTree.sweep`, `Cache.collect`: the removal of files. Names that start with a dot are left
  alone.
-/

namespace Shorthand

/-- One year in seconds. -/
def oneYear : Int := 31536000

/-- A cache in a directory. -/
structure Cache where
  directory : Path
  /-- The number of directories on the way to a file. -/
  dirLevel : Int := 0
  /-- How often a store collects first, in a million. -/
  gcProbability : Int := 10
  /-- The permission bits that stored files are given. -/
  fileMode : Option Nat := none
  extension : Text := ".xml".toList
  /-- The time after which a text expires, in seconds. -/
  duration : Int := oneYear
  deriving DecidableEq, Repr

/-! ## Collection -/

/-- A name that a collection leaves alone. -/
def isHiddenName (name : Text) : Bool :=
  name.head? == some '.'

/-- A directory after its expired files are removed, or all files and directories when not
`expiredOnly`; and whether every removal succeeded. A directory that keeps an entry cannot be
removed. -/
def FileTree.sweep (expiredOnly : Bool) (now : Int) : FileTree → FileTree × Bool
  | nil => (nil, true)
  | file name f rest =>
    let (kept, ok) := rest.sweep expiredOnly now
    if !isHiddenName name && (!expiredOnly || f.stamp < now) then (kept, ok)
    else (file name f kept, ok)
  | folder name inside rest =>
    let (kept, ok) := rest.sweep expiredOnly now
    if isHiddenName name then (folder name inside kept, ok)
    else
      let (left, leftOk) := inside.sweep expiredOnly now
      if expiredOnly then (folder name left kept, ok && leftOk)
      else if left.isEmpty then (kept, ok && leftOk)
      else (folder name left kept, false)

namespace Cache

/-- The time after which a text expires; a duration that is not positive means one year. -/
def lifetime (c : Cache) : Int :=
  if 0 < c.duration then c.duration else oneYear

/-- The names of the directories on the way to the file of a key's hash. -/
def shards (level : Int) (key : Text) : List Text :=
  ((List.range (min level.toNat key.length)).map fun i => (key.drop (2 * i)).take 2).filter
    (!·.isEmpty)

/-- The path of a key's file. -/
def pathFor (c : Cache) (key : Text) : Path :=
  let name := cacheKey key
  c.directory.append (shards c.dirLevel name ++ Path.splitParts (name ++ c.extension))

/-- The cache directory after a collection, and whether every removal succeeded. A directory that is
missing cannot be listed. -/
def sweepAll (c : Cache) (now : Int) (expiredOnly : Bool) (t : FileTree) : FileTree × Bool :=
  match t.entry c.directory with
  | .ok (.folder inside) =>
    match t.updateFolder c.directory fun _ => (inside.sweep expiredOnly now).1 with
    | .ok t' => (t', (inside.sweep expiredOnly now).2)
    | .error _ => (t, false)
  | _ => (t, false)

/-- A collection that runs when it is forced, or when a number drawn from 0 to a million is below
the cache's probability. -/
def collect (c : Cache) (now draw : Int) (force expiredOnly : Bool) (t : FileTree) : FileTree :=
  if force || draw < c.gcProbability then (c.sweepAll now expiredOnly t).1 else t

/-- The text of a key, unless there is none, it has expired, or it is not UTF-8. -/
def lookup (c : Cache) (now : Int) (t : FileTree) (key : Text) : Option Text :=
  match t.read (c.pathFor key) with
  | .ok f => if f.stamp ≤ now then none else f.text?
  | .error _ => none

/-- A file with a text stored in it. -/
def fill (c : Cache) (now : Int) (value : Text) (f : File) : File :=
  { content := encodeUtf8 value
    stamp := now + c.lifetime
    mode := c.fileMode.getD f.mode }

/-- The tree after a key's text is stored, and whether that succeeded. A collection may run first,
and missing directories on the way to the file are made. -/
def store (c : Cache) (now draw : Int) (t : FileTree) (key value : Text) : FileTree × Bool :=
  let swept := c.collect now draw false true t
  let path := c.pathFor key
  match if 0 < c.dirLevel then swept.makeFolders path.parent else .ok swept with
  | .error _ => (swept, false)
  | .ok made =>
    match made.write path (c.fill now value) with
    | .error _ => (made, false)
    | .ok stored => (stored, true)

/-- The tree without a key's file, and whether there was one to remove. -/
def delete (c : Cache) (t : FileTree) (key : Text) : FileTree × Bool :=
  match t.remove (c.pathFor key) with
  | .ok t' => (t', true)
  | .error _ => (t, false)

end Cache

end Shorthand
