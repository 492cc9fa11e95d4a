import Shorthand.Calendar
import Shorthand.Decimal

/-!
# Settings values

The values that a settings document holds. A mapping keeps the order in which its keys were first
written, and its keys are scalars.

- `Scalar.sameKey`: equal keys; a truth value, an integer and a real number of one amount are the
  same key, and so are two moments of one instant.
- `Value.kind`, `Value.fullKind`: the words for a value's kind in messages.
- `Value.display`, `Value.inspect`: a value as text, with texts bare at the outside or quoted
  everywhere.
-/

namespace Shorthand

/-- A value without parts. -/
inductive Scalar
  | null
  | bool (b : Bool)
  | int (z : Int)
  /-- A binary64 number, by its bits. -/
  | real (bits : UInt64)
  | date (d : Date)
  | moment (m : Moment)
  | text (t : Text)
  deriving DecidableEq, Repr, Inhabited

/-- A value of a settings document. -/
inductive Value
  | scalar (s : Scalar)
  | list (items : List Value)
  | mapping (entries : List (Scalar × Value))
  deriving Repr, Inhabited

namespace Scalar

/-- The integer that a scalar amounts to, if there is one. -/
def amount? : Scalar → Option Int
  | bool b => some (if b then 1 else 0)
  | int z => some z
  | real bits =>
    if Binary64.infinity ≤ Binary64.magnitude bits then none
    else
      let b := BinaryFraction.ofBits bits
      let unit := 1 <<< (-b.exponent).toNat
      if b.mantissa % unit = 0 then
        let n := (b.mantissa <<< b.exponent.toNat) / unit
        some (if Binary64.isNegative bits then -n else n)
      else none
  | _ => none

/-- Whether two scalars are the same key. -/
def sameKey (a b : Scalar) : Bool :=
  a == b || (a.amount?.isSome && a.amount? == b.amount?) ||
    match a, b with
    | moment m, moment m' => m.sameInstant m'
    | _, _ => false

/-- The word for a scalar's kind. -/
def kind : Scalar → Text
  | null => "NoneType".toList
  | bool _ => "bool".toList
  | int _ => "int".toList
  | real _ => "float".toList
  | date _ => "date".toList
  | moment _ => "datetime".toList
  | text _ => "str".toList

/-- The word for a scalar's kind with the place where the kind is defined. -/
def fullKind : Scalar → Text
  | date _ => "datetime.date".toList
  | moment _ => "datetime.datetime".toList
  | s => s.kind

/-- A scalar that counts as false: nothing, zero, or an empty text. -/
def isFalsy : Scalar → Bool
  | null => true
  | bool b => !b
  | int z => z == 0
  | real bits => Binary64.magnitude bits == 0
  | date _ => false
  | moment _ => false
  | text t => t.isEmpty

/-- A scalar as text, with a text bare. -/
def display : Scalar → Except Fault Text
  | null => .ok "None".toList
  | bool b => .ok (if b then "True".toList else "False".toList)
  | int z => writeNumeral z
  | real bits => .ok (writeReal bits)
  | date d => .ok d.display
  | moment m => .ok m.display
  | text t => .ok t

/-- A scalar as text, with a text in quotes. -/
def inspect : Scalar → Except Fault Text
  | date d => .ok d.inspect
  | moment m => .ok m.inspect
  | text t => .ok (quoted t)
  | s => s.display

end Scalar

namespace Value

/-- Nothing. -/
abbrev null : Value := scalar .null

/-- A text. -/
abbrev text (t : Text) : Value := scalar (.text t)

/-- An integer. -/
abbrev int (z : Int) : Value := scalar (.int z)

/-- A truth value. -/
abbrev bool (b : Bool) : Value := scalar (.bool b)

/-- The word for a value's kind. -/
def kind : Value → Text
  | scalar s => s.kind
  | list _ => "list".toList
  | mapping _ => "dict".toList

/-- The word for a value's kind with the place where the kind is defined. -/
def fullKind : Value → Text
  | scalar s => s.fullKind
  | v => v.kind

/-- A value that counts as false: nothing, zero, or anything empty. -/
def isFalsy : Value → Bool
  | scalar s => s.isFalsy
  | list items => items.isEmpty
  | mapping entries => entries.isEmpty

mutual

/-- A value as text, with texts in quotes. -/
def inspect : Value → Except Fault Text
  | scalar s => s.inspect
  | list items => return '[' :: List.intercalate [',', ' '] (← showItems items) ++ [']']
  | mapping entries =>
    return '\x7b' :: List.intercalate [',', ' '] (← showEntries entries) ++ ['\x7d']

/-- The items of a list as texts. -/
def showItems : List Value → Except Fault (List Text)
  | [] => .ok []
  | item :: rest => return (← item.inspect) :: (← showItems rest)

/-- The entries of a mapping as texts. -/
def showEntries : List (Scalar × Value) → Except Fault (List Text)
  | [] => .ok []
  | (key, value) :: rest =>
    return ((← key.inspect) ++ ':' :: ' ' :: (← value.inspect)) :: (← showEntries rest)

end

/-- A value as text, with a text bare. -/
def display : Value → Except Fault Text
  | scalar s => s.display
  | v => v.inspect

/-- The value of a mapping's key. -/
def entry? (entries : List (Scalar × Value)) (key : Scalar) : Option Value :=
  (entries.find? (·.1.sameKey key)).map (·.2)

/-- A mapping's entries with a key's value set; a key that is already there keeps its place and
its spelling. -/
def setEntry (entries : List (Scalar × Value)) (key : Scalar) (value : Value) :
    List (Scalar × Value) :=
  match entries with
  | [] => [(key, value)]
  | e :: rest =>
    if e.1.sameKey key then (e.1, value) :: rest else e :: setEntry rest key value

end Value

end Shorthand
