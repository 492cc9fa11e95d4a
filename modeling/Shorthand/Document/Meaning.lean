import Shorthand.Document.Reader
import Shorthand.Value

/-!
# The meaning of plain scalars

A plain scalar may stand for nothing, a truth value, an integer, a real number, a date or a moment,
by the rules of YAML 1.1 for scalars without a tag; otherwise it is a text.

- `integer?`: decimal, binary, octal and hexadecimal integers, with `_` between digits, and base-60
  ones such as `1:30`.
- `real?`: numbers with a point, the infinities and the number that is none.
- `timestamp?`: dates, and moments with or without the distance from universal time.
- `Document.value`: the value of a document. A key must be a scalar, and the last value of a
  repeated key counts. The merge key `<<` is not known.
- `Document.read`: the reader of documents that this library comes with.
-/

namespace Shorthand.Document

/-- The words for nothing. -/
def nullWords : List Text :=
  [[], "~".toList, "null".toList, "Null".toList, "NULL".toList]

/-- The words for truth. -/
def trueWords : List Text :=
  ["yes".toList, "Yes".toList, "YES".toList, "true".toList, "True".toList, "TRUE".toList,
    "on".toList, "On".toList, "ON".toList]

/-- The words for falsehood. -/
def falseWords : List Text :=
  ["no".toList, "No".toList, "NO".toList, "false".toList, "False".toList, "FALSE".toList,
    "off".toList, "Off".toList, "OFF".toList]

/-! ## Integers -/

/-- A sign, if there is one, and the rest. -/
def splitSign : Text → Bool × Text
  | '-' :: rest => (true, rest)
  | '+' :: rest => (false, rest)
  | t => (false, t)

/-- The number that digits write in a base up to ten. -/
def baseValue (base : Nat) (ds : Text) : Nat :=
  ds.foldl (fun n c => base * n + (c.toNat - 48)) 0

/-- A row of characters from one class and `_`, with one of the class at the start. -/
def isRow (p : Char → Bool) (t : Text) : Bool :=
  t.head?.any p && t.all fun c => p c || c == '_'

/-- The characters without `_`. -/
def dropUnderscores (t : Text) : Text :=
  t.filter (· != '_')

/-- A part of a base-60 number after its first: one or two digits below 60. -/
def isSixtieth (t : Text) : Bool :=
  match t with
  | [c] => c.isDigit
  | [a, b] => '0' ≤ a && a ≤ '5' && b.isDigit
  | _ => false

/-- The digits of an integer in base 60, highest first. -/
def sixtieths? (t : Text) : Option (List Text) :=
  match t.splitOn ':' with
  | first :: second :: rest =>
    if isRow Char.isDigit first && (second :: rest).all isSixtieth then
      some (dropUnderscores first :: second :: rest)
    else none
  | _ => none

/-- The number that digits in base 60 write. -/
def sixtiethsValue (parts : List Text) : Nat :=
  parts.foldl (fun n part => 60 * n + baseValue 10 part) 0

/-- The number that the digits after a base's mark write; there must be one. -/
def markedValue (base : Nat) (read : Text → Nat) (ds : Text) : Except Fault Nat :=
  if (dropUnderscores ds).isEmpty then .error (.digitless base)
  else .ok (read (dropUnderscores ds))

/-- The magnitude of an integer. Only plain decimal digits are subject to the limit on numerals. -/
def magnitude? (t : Text) : Option (Except Fault Nat) :=
  match t with
  | '0' :: 'b' :: ds =>
    if !ds.isEmpty && ds.all fun c => c == '0' || c == '1' || c == '_' then
      some (markedValue 2 (baseValue 2) ds)
    else none
  | '0' :: 'x' :: ds =>
    if !ds.isEmpty && ds.all fun c => (hexDigit? c).isSome || c == '_' then
      some (markedValue 16 (fun ds => (hexValue? ds).getD 0) ds)
    else none
  | '0' :: ds =>
    if ds.all fun c => ('0' ≤ c && c ≤ '7') || c == '_' then
      some (.ok (baseValue 8 (dropUnderscores ds)))
    else none
  | _ =>
    if isRow Char.isDigit t then some (readNumeral (dropUnderscores t))
    else (sixtieths? t).map fun parts => .ok (sixtiethsValue parts)

/-- The integer that a plain scalar stands for. -/
def integer? (t : Text) : Option (Except Fault Int) :=
  let (negative, ds) := splitSign t
  (magnitude? ds).map fun r => r.map fun n => if negative then -(n : Int) else n

/-! ## Real numbers -/

/-- The number `digits * 10 ^ power`, to the nearest. -/
def realOfDigits (negative : Bool) (digits : Nat) (power : Int) : UInt64 :=
  let f := Float.ofScientific digits (power < 0) power.natAbs
  (if negative then -f else f).toBits

/-- The power of ten that an exponent with its sign writes; no exponent is the power zero. -/
def exponent? (t : Text) : Option Int :=
  match t with
  | [] => some 0
  | e :: sign :: ds =>
    if (e == 'e' || e == 'E') && (sign == '+' || sign == '-') && !ds.isEmpty && ds.all Char.isDigit
    then some (if sign == '-' then -(baseValue 10 ds : Int) else baseValue 10 ds)
    else none
  | _ => none

/-- The digits after a point and the power that follows them. -/
def fraction? (t : Text) : Option (Text × Int) :=
  let p (c : Char) : Bool := c.isDigit || c == '_'
  (exponent? (t.dropWhile p)).map fun power => (dropUnderscores (t.takeWhile p), power)

/-- The real number that a plain scalar stands for, by its bits. -/
def real? (t : Text) : Option UInt64 :=
  let (negative, body) := splitSign t
  let signed := body.length != t.length
  let whole := Text.beforeFirst '.' body
  if !body.contains '.' then none
  else if [".inf".toList, ".Inf".toList, ".INF".toList].contains body then
    some (if negative then 0xFFF0000000000000 else 0x7FF0000000000000)
  else if [".nan".toList, ".NaN".toList, ".NAN".toList].contains t then some 0x7FF8000000000000
  else
    match fraction? (Text.afterFirst '.' body) with
    | none => none
    | some (ds, power) =>
      let finish (whole : Nat) : UInt64 :=
        realOfDigits negative (whole * Nat.pow 10 ds.length + baseValue 10 ds) (power - ds.length)
      if whole.isEmpty then
        if !signed && (Text.afterFirst '.' body).head?.any Char.isDigit then some (finish 0)
        else none
      else if isRow Char.isDigit whole then some (finish (baseValue 10 (dropUnderscores whole)))
      else if power = 0 && !(body.contains 'e' || body.contains 'E') then
        (sixtieths? whole).map fun parts => finish (sixtiethsValue parts)
      else none

/-! ## Dates and moments -/

/-- The number that the digits at the start of a text write, at most `most` of them and at least
`least`, and what follows. -/
def digits? (least most : Nat) (t : Text) : Option (Nat × Text) :=
  let ds := (t.take most).takeWhile Char.isDigit
  if ds.length < least then none else some (baseValue 10 ds, t.drop ds.length)

/-- A space or a tab. -/
def isInlineBlank (c : Char) : Bool :=
  c == ' ' || c == '\t'

/-- The text after the letter `T` or blanks, which stand between a date and a time. -/
def afterDate? : Text → Option Text
  | [] => none
  | c :: rest =>
    if c == 'T' || c == 't' then some rest
    else if isInlineBlank c then some (rest.dropWhile isInlineBlank)
    else none

/-- The minutes of a distance from universal time that a text writes after its sign. -/
def zoneMinutes? (t : Text) : Option Nat := do
  let (hours, rest) ← digits? 1 2 t
  if rest.isEmpty then return 60 * hours
  let (minutes, rest) ← digits? 2 2 (← Text.takePrefix? [':'] rest)
  if rest.isEmpty then return 60 * hours + minutes else none

/-- The distance from universal time that a text writes, if it writes any. -/
def zone? (t : Text) : Option (Option Int) :=
  if t.isEmpty then some none
  else
    match t.dropWhile isInlineBlank with
    | ['Z'] => some (some 0)
    | '+' :: rest => (zoneMinutes? rest).map fun n => some n
    | '-' :: rest => (zoneMinutes? rest).map fun n => some (-n)
    | _ => none

/-- The millionths that the digits after a point write. -/
def millionths (ds : Text) : Nat :=
  baseValue 10 ((ds ++ List.replicate 6 '0').take 6)

/-- The date or the moment that a plain scalar stands for. A date alone has two digits for its month
and its day. -/
def timestamp? (t : Text) : Option (Except MomentFault Scalar) := do
  let (year, rest) ← digits? 4 4 t
  let (month, rest) ← digits? 1 2 (← Text.takePrefix? ['-'] rest)
  let (day, rest) ← digits? 1 2 (← Text.takePrefix? ['-'] rest)
  if rest.isEmpty then
    if t.length = 10 then return (Date.make? year month day).map .date else none
  else
    let (hour, rest) ← digits? 1 2 (← afterDate? rest)
    let (minute, rest) ← digits? 2 2 (← Text.takePrefix? [':'] rest)
    let (second, rest) ← digits? 2 2 (← Text.takePrefix? [':'] rest)
    let fraction := if rest.head? = some '.' then rest.tail.takeWhile Char.isDigit else []
    let rest := if rest.head? = some '.' then rest.tail.dropWhile Char.isDigit else rest
    let offset ← zone? rest
    return (Moment.make? year month day hour minute second (millionths fraction) offset).map .moment

/-! ## Values -/

/-- The scalar that a plain scalar stands for. -/
def plainMeaning (t : Text) : Except Fault Scalar :=
  if nullWords.contains t then .ok .null
  else if trueWords.contains t then .ok (.bool true)
  else if falseWords.contains t then .ok (.bool false)
  else
    match integer? t, real? t, timestamp? t with
    | some z, _, _ => z.map .int
    | none, some bits, _ => .ok (.real bits)
    | none, none, some moment => moment.mapError .badMoment
    | none, none, none => .ok (.text t)

/-- The words that have a meaning of their own only as keys. -/
def keyWords : List Text := ["=".toList, "<<".toList]

/-- The scalar that a key stands for. -/
def keyMeaning : Document → Except DocumentFault Scalar
  | plain t =>
    if t = "<<".toList then .error .malformed else (plainMeaning t).mapError .fault
  | quoted t => .ok (.text t)
  | list _ => .error .malformed
  | mapping _ => .error .malformed

mutual

/-- The value of a document. -/
def value : Document → Except DocumentFault Value
  | plain t =>
    if keyWords.contains t then .error .malformed
    else return .scalar (← (plainMeaning t).mapError .fault)
  | quoted t => .ok (.text t)
  | list items => return .list (← valueItems items)
  | mapping entries => return .mapping (← valueEntries [] entries)

/-- The values of the items of a list. -/
def valueItems : List Document → Except DocumentFault (List Value)
  | [] => .ok []
  | item :: rest => return (← item.value) :: (← valueItems rest)

/-- The entries of a mapping, added one by one to those before. -/
def valueEntries (before : List (Scalar × Value)) :
    List (Document × Document) → Except DocumentFault (List (Scalar × Value))
  | [] => .ok before
  | (key, value) :: rest => do
    let k ← keyMeaning key
    let v ← value.value
    valueEntries (Value.setEntry before k v) rest

end

/-- The value of a document's text. -/
def read (text : Text) : Except DocumentFault Value := do
  let document ← parse text
  document.value

end Shorthand.Document
