import Shorthand.Numeral

/-!
# Dates and moments

Days of the calendar and times of a day, as settings values may write them. The calendar has the
years 1 to 9999, each with its leap day by the rule of 400 years.

- `Date.make?`, `Moment.make?`: a day and a time with these numbers, if there are such.
- `Date.display`, `Moment.display`: the written forms; `inspect` gives those of a value among others.
- `Moment.sameInstant`: moments of one instant, written at different distances from universal time.
-/

namespace Shorthand

/-- A day. -/
structure Date where
  year : Nat
  month : Nat
  day : Nat
  deriving DecidableEq, Repr

/-- A time of a day. -/
structure Moment where
  date : Date
  hour : Nat
  minute : Nat
  second : Nat
  micro : Nat := 0
  /-- The distance from universal time in minutes, where it is known. -/
  offset : Option Int := none
  deriving DecidableEq, Repr

/-- A number in decimal digits, padded with zeros to a width. -/
def paddedDigits (width n : Nat) : Text :=
  let ds := decimalDigits n
  List.replicate (width - ds.length) '0' ++ ds

namespace Date

/-- Whether a year has a leap day. -/
def isLeapYear (year : Nat) : Bool :=
  year % 4 == 0 && (year % 100 != 0 || year % 400 == 0)

/-- The number of days in a month. -/
def daysIn (year month : Nat) : Nat :=
  if month = 2 then if isLeapYear year then 29 else 28
  else if month = 4 ∨ month = 6 ∨ month = 9 ∨ month = 11 then 30
  else 31

/-- The day with these numbers. -/
def make? (year month day : Nat) : Except MomentFault Date :=
  if year = 0 ∨ 9999 < year then .error (.year year)
  else if month = 0 ∨ 12 < month then .error .month
  else if day = 0 ∨ daysIn year month < day then .error .day
  else .ok { year, month, day }

/-- The number of days before a day, counted from the start of the calendar. -/
def ordinal (d : Date) : Nat :=
  let years := d.year - 1
  let months := (List.range (d.month - 1)).foldl (fun days m => days + daysIn d.year (m + 1)) 0
  365 * years + years / 4 - years / 100 + years / 400 + months + (d.day - 1)

/-- A day as text. -/
def display (d : Date) : Text :=
  paddedDigits 4 d.year ++ '-' :: paddedDigits 2 d.month ++ '-' :: paddedDigits 2 d.day

/-- The numbers of a day. -/
def numbers (d : Date) : List Nat :=
  [d.year, d.month, d.day]

/-- A day as text among other values. -/
def inspect (d : Date) : Text :=
  "datetime.date(".toList ++ List.intercalate [',', ' '] (d.numbers.map decimalDigits) ++ [')']

end Date

namespace Moment

/-- The moment with these numbers. The distance from universal time is less than a day. -/
def make? (year month day hour minute second micro : Nat) (offset : Option Int) :
    Except MomentFault Moment := do
  if let some minutes := offset then
    if 1440 ≤ minutes.natAbs then throw (.offset minutes)
  let date ← Date.make? year month day
  if 23 < hour then throw .hour
  if 59 < minute then throw .minute
  if 59 < second then throw .second
  return { date, hour, minute, second, micro, offset }

/-- The instant of a moment in millionths of a second, of universal time if the distance from it is
known. -/
def instant (m : Moment) : Int :=
  let minutes : Int := (m.date.ordinal * 24 + m.hour) * 60 + m.minute - m.offset.getD 0
  (minutes * 60 + m.second) * 1000000 + m.micro

/-- Whether two moments are one instant. Without the distance from universal time there is no
telling, and such a moment is none of the others. -/
def sameInstant (a b : Moment) : Bool :=
  a.offset.isSome == b.offset.isSome && a.instant == b.instant

/-- A moment as text. -/
def display (m : Moment) : Text :=
  let two := paddedDigits 2
  let fraction := if m.micro = 0 then [] else '.' :: paddedDigits 6 m.micro
  let offset := match m.offset with
    | none => []
    | some z => (if z < 0 then '-' else '+') :: two (z.natAbs / 60) ++ ':' :: two (z.natAbs % 60)
  m.date.display ++ ' ' :: two m.hour ++ ':' :: two m.minute ++ ':' :: two m.second ++ fraction ++
    offset

/-- A moment as text among other values. Zeros at the end of its numbers are left out. -/
def inspect (m : Moment) : Text :=
  let small :=
    if m.micro ≠ 0 then [m.second, m.micro] else if m.second ≠ 0 then [m.second] else []
  let numbers := (m.date.numbers ++ [m.hour, m.minute] ++ small).map decimalDigits
  let offset := match m.offset with
    | none => []
    | some 0 => ["tzinfo=datetime.timezone.utc".toList]
    | some z => ["tzinfo=datetime.timezone(".toList ++ showMinutes z ++ [')']]
  "datetime.datetime(".toList ++ List.intercalate [',', ' '] (numbers ++ offset) ++ [')']

end Moment

end Shorthand
