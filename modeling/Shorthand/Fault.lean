import Shorthand.Text.Quoted

/-!
# Faults

Everything that can go wrong, by cause. `Fault.message` is the text shown for a fault.

- Expanding itself fails only at the limit on decimal numerals, on an empty token, or where no
  resolver is given.
- `SettingsFault`: the settings cannot be read or do not describe a compiler.
- `TypeFault`: a settings value of the wrong kind is put to use.
- `PatternFault`: a watch pattern has no meaning.
- `MomentFault`: a date or a time is not in the calendar.
- `DocumentFault`: a document has no value. A text that is not well formed is told apart from
  everything else that a reader of documents may fail with.
-/

namespace Shorthand

/-- Why settings are refused. -/
inductive SettingsFault
  /-- The document is not well formed. -/
  | malformed
  /-- The document is not a mapping. -/
  | notMapping
  /-- The file of this path cannot be read, for the reason given. -/
  | unreadable (path : Text) (reason : Text)
  /-- A table is not a mapping but a value of the kind named. -/
  | tableKind (table : Text) (kind : Text)
  /-- The cache entry names no directory. -/
  | cacheWithoutDirectory
  /-- The cache directory does not exist or takes no files. -/
  | cacheNotWritable (path : Text)
  deriving DecidableEq, Repr

/-- A use of a value that its kind (named in the constructor) does not admit. -/
inductive TypeFault
  | notPath (kind : Text)
  | notComparable (kind : Text)
  | notInteger (kind : Text)
  | notJoinable (kind : Text)
  | notIterable (kind : Text)
  | notIndexable (kind : Text)
  | textIndexedByText
  | listIndexedByText
  | notInternable (kind : Text)
  | notHashable (kind : Text)
  /-- An item of a table that is fixed once built. -/
  | fixedItem
  deriving DecidableEq, Repr

/-- Why a watch pattern is refused. -/
inductive PatternFault
  /-- The pattern is empty; the value is shown. -/
  | unacceptable (shown : Text)
  /-- The pattern starts at the root of the file system. -/
  | absolute
  /-- The pattern has no part but `.`. -/
  | partless
  /-- The pattern has no part but `.` before a slash at its end. -/
  | slashOnly
  /-- A part holds `**` and more. -/
  | mixedRecursive
  deriving DecidableEq, Repr

/-- Why a date or a time is not in the calendar. -/
inductive MomentFault
  | year (year : Nat)
  | month
  | day
  | hour
  | minute
  | second
  /-- The distance from universal time, in minutes, is a day or more. -/
  | offset (minutes : Int)
  deriving DecidableEq, Repr

/-- Why a computation fails. -/
inductive Fault
  /-- A numeral to be read has this many digits, more than the limit. -/
  | numeralTooLong (digits : Nat)
  /-- A number to be written has more digits than the limit. -/
  | numberTooLarge
  /-- A numeral in this base has no digits after its mark. -/
  | digitless (base : Nat)
  /-- A token has no characters. -/
  | emptyToken
  /-- A tag was asked of a resolver that gives none. -/
  | noResolver
  | settings (cause : SettingsFault)
  /-- A mapping has no entry for the key shown. -/
  | missingEntry (shown : Text)
  | wrongType (cause : TypeFault)
  | badPattern (cause : PatternFault)
  | badMoment (cause : MomentFault)
  /-- There is no character with this number. -/
  | notCharacter (code : Nat)
  /-- The bytes of a file are not UTF-8. -/
  | notUtf8
  /-- A text that is to be kept in a file has a character without bytes. -/
  | notEncodable
  /-- A path has the character NUL, which the system takes in no path. -/
  | nullInPath
  /-- The path shown is longer than the system allows, or has a name that is. -/
  | nameTooLong (path : Text)
  /-- A part that is given from outside, such as the reader of documents or the observer, fails with
  this message. -/
  | outside (message : Text)
  /-- A field of a table set that is fixed once built. -/
  | fixedField
  deriving DecidableEq, Repr

/-- Why a document has no value. -/
inductive DocumentFault
  /-- The text is not well formed. -/
  | malformed
  /-- A value cannot be made, for the reason given. -/
  | fault (fault : Fault)
  deriving DecidableEq, Repr

/-- The text shown for refused settings. -/
def SettingsFault.message : SettingsFault → Text
  | malformed => "Invalid YAML configuration".toList
  | notMapping => "Configuration must be a mapping at the top level.".toList
  | unreadable path reason =>
    "Cannot read configuration '".toList ++ path ++ "': ".toList ++ reason
  | tableKind table kind =>
    "Abbreviation table '".toList ++ table ++ "' must be a mapping, got ".toList ++ kind ++ ['.']
  | cacheWithoutDirectory => "The 'cache' option needs a 'dir' entry.".toList
  | cacheNotWritable path => "Cache directory \"".toList ++ path ++ "\" is not writable.".toList

/-- The text shown for a value of the wrong kind. -/
def TypeFault.message : TypeFault → Text
  | notPath kind => "expected str, bytes or os.PathLike object, not ".toList ++ kind
  | notComparable kind =>
    "'>' not supported between instances of '".toList ++ kind ++ "' and 'int'".toList
  | notInteger kind => '\'' :: kind ++ "' object cannot be interpreted as an integer".toList
  | notJoinable kind => "can only concatenate str (not \"".toList ++ kind ++ "\") to str".toList
  | notIterable kind => '\'' :: kind ++ "' object is not iterable".toList
  | notIndexable kind => '\'' :: kind ++ "' object is not subscriptable".toList
  | textIndexedByText => "string indices must be integers, not 'str'".toList
  | listIndexedByText => "list indices must be integers or slices, not str".toList
  | notInternable kind => "intern() argument must be str, not ".toList ++ kind
  | notHashable kind => "unhashable type: '".toList ++ kind ++ ['\'']
  | fixedItem => "'mappingproxy' object does not support item assignment".toList

/-- The text shown for a refused pattern. -/
def PatternFault.message : PatternFault → Text
  | unacceptable shown => "Unacceptable pattern: ".toList ++ shown
  | absolute => "Non-relative patterns are unsupported".toList
  | partless => "tuple index out of range".toList
  | slashOnly => "'_TerminatingSelector' object has no attribute 'select_from'".toList
  | mixedRecursive =>
    "Invalid pattern: '**' can only be an entire path component".toList

/-- A distance in time of some minutes, as it is shown in messages: in days and seconds. -/
def showMinutes (minutes : Int) : Text :=
  let number (z : Int) : Text := (if z < 0 then ['-'] else []) ++ Nat.toDigits 10 z.natAbs
  let days := minutes.fdiv 1440
  let seconds := minutes.fmod 1440 * 60
  let parts := (if days = 0 then [] else ["days=".toList ++ number days]) ++
    (if seconds = 0 then [] else ["seconds=".toList ++ number seconds])
  "datetime.timedelta(".toList ++
    (if parts.isEmpty then ['0'] else List.intercalate [',', ' '] parts) ++ [')']

/-- The text shown for a date or a time that is not in the calendar. -/
def MomentFault.message : MomentFault → Text
  | year n => "year ".toList ++ Nat.toDigits 10 n ++ " is out of range".toList
  | month => "month must be in 1..12".toList
  | day => "day is out of range for month".toList
  | hour => "hour must be in 0..23".toList
  | minute => "minute must be in 0..59".toList
  | second => "second must be in 0..59".toList
  | offset minutes =>
    "offset must be a timedelta strictly between -timedelta(hours=24) and ".toList ++
      "timedelta(hours=24), not ".toList ++ showMinutes minutes ++ ['.']

/-- The text shown for a fault. -/
def Fault.message : Fault → Text
  | numeralTooLong digits =>
    "Exceeds the limit (4300 digits) for integer string conversion: value has ".toList ++
      Nat.toDigits 10 digits ++
      " digits; use sys.set_int_max_str_digits() to increase the limit".toList
  | numberTooLarge =>
    "Exceeds the limit (4300 digits) for integer string conversion; ".toList ++
      "use sys.set_int_max_str_digits() to increase the limit".toList
  | digitless base =>
    "invalid literal for int() with base ".toList ++ Nat.toDigits 10 base ++ ": ''".toList
  | emptyToken => "string index out of range".toList
  | noResolver => []
  | settings cause => cause.message
  | missingEntry shown => shown
  | wrongType cause => cause.message
  | badPattern cause => cause.message
  | badMoment cause => cause.message
  | notCharacter code =>
    if code < 0x80000000 then "chr() arg not in range(0x110000)".toList
    else "Python int too large to convert to C int".toList
  | notUtf8 => []
  | notEncodable => []
  | nullInPath => "embedded null byte".toList
  | nameTooLong path => "[Errno 36] File name too long: ".toList ++ quoted path
  | outside message => message
  | fixedField => "AbbreviationTables is immutable".toList

end Shorthand
