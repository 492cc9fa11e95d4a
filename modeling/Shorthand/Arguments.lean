import Shorthand.Text.Digit

/-!
# Command-line arguments

The command line takes one optional path of a settings file, the flag `--once`, the option `-e` or
`--expand` with a value, and `-h` or `--help`.

- `Argument.classify`: an argument as an option or a plain one. Long options may be abbreviated as
  long as they are not ambiguous, and a value may follow its option in the same argument.
- `Arguments.parse`: what all arguments say, or the code to exit with.
-/

namespace Shorthand

/-- An option of the command line. -/
inductive CommandOption
  | help
  | once
  | expand
  deriving DecidableEq, Repr

namespace CommandOption

/-- The spellings of the options. -/
def spellings : List (Text × CommandOption) :=
  [("-h".toList, help), ("--help".toList, help), ("--once".toList, once), ("-e".toList, expand),
    ("--expand".toList, expand)]

/-- The option of a whole spelling. -/
def find? (t : Text) : Option CommandOption :=
  (spellings.find? (·.1 == t)).map (·.2)

end CommandOption

/-- An argument by its form. -/
inductive Argument
  /-- A path, or the value of an option before it. -/
  | plain (t : Text)
  /-- `--`, after which all arguments are plain. -/
  | separator
  /-- An option with the value given in the same argument, if there is one. `short` tells the
  spelling with one hyphen, `equals` that an equals sign stands before the value. -/
  | option (o : CommandOption) (short equals : Bool) (value : Option Text)
  | unknown
  deriving DecidableEq, Repr

namespace Argument

/-- Digits after an optional point, as in a negative number. -/
def isNumeral (t : Text) : Bool :=
  let t := if t.getLast? = some '\n' then t.dropLast else t
  (!t.isEmpty && t.all isDigit) ||
    match t.dropWhile isDigit with
    | '.' :: rest => !rest.isEmpty && rest.all isDigit
    | _ => false

/-- What an argument with hyphens at its start is when it spells no option: a plain one if it is
like a negative number or has a space in it. -/
def otherwise (t : Text) : Argument :=
  if isNumeral (t.drop 1) || t.contains ' ' then plain t else unknown

/-- A long option by a start of its spelling, or none if that is ambiguous. -/
def classifyLong (t : Text) : Option Argument :=
  let start := Text.beforeFirst '=' t
  let value := if t.contains '=' then some (Text.afterFirst '=' t) else none
  match CommandOption.spellings.filter fun s => start.isPrefixOf s.1 with
  | [] => some (otherwise t)
  | [(_, o)] => some (option o false value.isSome value)
  | _ => none

/-- The form of an argument before any `--`, or none if it is ambiguous. -/
def classify (t : Text) : Option Argument :=
  if t.head? ≠ some '-' || t.length = 1 then some (plain t)
  else
    let short := t[1]? != some '-'
    match CommandOption.find? t with
    | some o => some (option o short false none)
    | none =>
      let head := Text.beforeFirst '=' t
      match if t.contains '=' then CommandOption.find? head else none with
      | some o => some (option o short true (some (Text.afterFirst '=' t)))
      | none =>
        if short then
          match CommandOption.find? (t.take 2) with
          | some o => some (option o true false (some (t.drop 2)))
          | none => some (otherwise t)
        else classifyLong t

/-- The forms of all arguments, or none if one is ambiguous. -/
def classifyAll : List Text → Option (List Argument)
  | [] => some []
  | t :: rest =>
    if t = "--".toList then some (separator :: rest.map plain)
    else do return (← classify t) :: (← classifyAll rest)

end Argument

/-- What the arguments say. -/
structure Arguments where
  config : Option Text := none
  once : Bool := false
  expand : Option Text := none
  deriving DecidableEq, Repr

namespace Arguments

/-- The code of an exit after help. -/
def helpCode : Nat := 0

/-- The code of an exit for arguments that are not understood. -/
def usageCode : Nat := 2

/-- The reading of arguments so far. -/
structure Reading where
  arguments : Arguments := {}
  /-- The place of the path has been passed, with a path or without. -/
  configPassed : Bool := false
  /-- There was an argument with no place. -/
  extra : Bool := false
  deriving DecidableEq, Repr

/-- What an option with a value in the same argument amounts to. -/
inductive Attached
  /-- The value of `-e` or `--expand`. -/
  | value (t : Text)
  /-- Help is asked for. -/
  | help
  /-- Help is asked for by a row of letters whose last is `e`, which needs a value. -/
  | helpIfValue
  /-- The option takes no value. -/
  | refused
  deriving DecidableEq, Repr

/-- The letters after `-h` in one argument: more short options. -/
def readLetters : Text → Attached
  | [] => .help
  | c :: rest =>
    if c = '-' then .refused
    else if c = 'h' then
      if rest.head? = some '=' then .refused else readLetters rest
    else if c = 'e' then (if rest.isEmpty then .helpIfValue else .help)
    else .help

/-- What an option with a value in the same argument amounts to. -/
def attached (o : CommandOption) (short equals : Bool) (value : Text) : Attached :=
  match o with
  | .expand => .value value
  | .once => .refused
  | .help => if short && !equals && !value.isEmpty then readLetters value else .refused

/-- Whether a value for an option comes next. -/
def valueFollows : List Argument → Bool
  | .plain _ :: _ => true
  | _ => false

/-- Reads classified arguments from left to right; an error is the code to exit with. -/
def read (r : Reading) (arguments : List Argument) : Except Nat Reading :=
  match arguments with
  | [] => .ok r
  | .unknown :: rest => read { r with extra := true } rest
  | .option .help _ _ none :: _ => .error helpCode
  | .option .once _ _ none :: rest => read { r with arguments.once := true } rest
  | .option .expand _ _ none :: .plain t :: rest =>
    read { r with arguments.expand := some t } rest
  | .option .expand _ _ none :: _ => .error usageCode
  | .option o short equals (some value) :: rest =>
    match attached o short equals value with
    | .value t => read { r with arguments.expand := some t } rest
    | .help => .error helpCode
    | .helpIfValue => .error (if valueFollows rest then helpCode else usageCode)
    | .refused => .error usageCode
  | .separator :: .plain t :: rest =>
    if r.configPassed then read { r with extra := true } (.plain t :: rest)
    else read { r with arguments.config := some t, configPassed := true } rest
  | .separator :: rest =>
    read { r with configPassed := true, extra := r.extra || r.configPassed } rest
  | .plain t :: .separator :: rest =>
    if r.configPassed then read { r with extra := true } (.separator :: rest)
    else read { r with arguments.config := some t, configPassed := true } rest
  | .plain t :: rest =>
    if r.configPassed then read { r with extra := true } rest
    else read { r with arguments.config := some t, configPassed := true } rest
termination_by arguments.length

/-- What the arguments say, or the code to exit with. -/
def parse (arguments : List Text) : Except Nat Arguments :=
  match Argument.classifyAll arguments with
  | none => .error usageCode
  | some classified =>
    match read {} classified with
    | .error code => .error code
    | .ok r => if r.extra then .error usageCode else .ok r.arguments

end Arguments

end Shorthand
