import Shorthand.Compiler
import Shorthand.Settings.CacheOptions
import Shorthand.Settings.Tables

/-!
# Settings

A settings document is a mapping; entries that it leaves out, or gives as nothing, have defaults.
What value a document has is left to a reader of documents, which is given from outside.

- `DocumentReader`: a reader of documents.
- `Settings.ofValue`, `Settings.parse`, `Settings.load`: settings from a value, a text and a file.
- `Settings.tables`, `indented`, `cacheOptions`, `compiler`: what they say about expansion.
-/

namespace Shorthand

/-- A reader of documents: the value that a text has, or why it has none. -/
abbrev DocumentReader := Text → Except DocumentFault Value

/-- The entries of a settings document, with the defaults. -/
structure Settings where
  entries : List (Scalar × Value)
  deriving Repr

namespace Settings

/-- The entries that every document has. -/
def defaults : Settings where
  entries :=
    [(.text "indented".toList, .bool true), (.text "tags".toList, .mapping []),
      (.text "attributes".toList, .mapping []), (.text "extended".toList, .mapping []),
      (.text "implicit".toList, .mapping []), (.text "cache".toList, .null),
      (.text "write".toList, .list []), (.text "watch".toList, .list [])]

/-- The value of an entry. -/
def get? (s : Settings) (name : String) : Option Value :=
  Value.entry? s.entries (.text name.toList)

/-- The settings with an entry set; nothing leaves it as it was. -/
def set (s : Settings) (key : Scalar) : Value → Settings
  | .scalar .null => s
  | v => ⟨Value.setEntry s.entries key v⟩

/-- The settings that a document's value gives; no document at all gives the defaults. -/
def ofValue : Value → Except Fault Settings
  | .scalar .null => .ok defaults
  | .mapping entries => .ok (entries.foldl (fun s e => s.set e.1 e.2) defaults)
  | _ => .error (.settings .notMapping)

/-- The settings of a document's text. -/
def parse (read : DocumentReader) (text : Text) : Except Fault Settings :=
  match read text with
  | .ok v => ofValue v
  | .error .malformed => .error (.settings .malformed)
  | .error (.fault fault) => .error fault

/-- The settings of a file; `path` is its path as it was written. Only what the file system refuses
makes a file unreadable. -/
def load (read : DocumentReader) (files : FileTree) (path : Text) : Except Fault Settings :=
  match files.openRead (Path.parse path) with
  | .ok f =>
    match f.text? with
    | some t => parse read t
    | none => .error .notUtf8
  | .error (.file e) =>
    .error (.settings (.unreadable path
      (e.message ++ ':' :: ' ' :: quoted (Path.parse path).display)))
  | .error (.fault fault) => .error fault

/-! ## What the settings say -/

/-- The tables, checked one after the other. -/
def tables (s : Settings) : Except Fault Tables :=
  let entry (name : String) : Value := (s.get? name).getD .null
  Tables.ofValues (entry "tags") (entry "attributes") (entry "extended") (entry "implicit")

/-- Whether indentation shows nesting. -/
def indented (s : Settings) : Bool :=
  !((s.get? "indented").getD (.bool true)).isFalsy

/-- The options of the cache, if there is one. A text alone names its directory. -/
def cacheOptions (s : Settings) (files : FileTree) : Except Fault (Option CacheOptions) :=
  let given := (s.get? "cache").getD .null
  if given.isFalsy then .ok none
  else
    match given with
    | .scalar (.text t) => return some (← CacheOptions.make files (.text t) [])
    | .mapping entries =>
      match Value.entry? entries (.text "dir".toList) with
      | some directory => return some (← CacheOptions.make files directory entries)
      | none => .error (.settings .cacheWithoutDirectory)
    | _ => .error (.settings .cacheWithoutDirectory)

/-- The compiler that the settings describe. -/
def compiler (s : Settings) (files : FileTree) : Except Fault Compiler := do
  let tables ← s.tables
  let options ← s.cacheOptions files
  return { tables, indented := s.indented, cache := options.map CacheOptions.cache }

end Settings

end Shorthand
