/-
ApiSurface.Yaml.Date — dates and times.

A date has a year from 1 to 9999 and a day that exists in its month. A time of
the day may follow, with microseconds and the offset of its zone; the offset is
less than a day.
-/
import ApiSurface.Yaml.Tag

namespace ApiSurface.Yaml

/-- A time of a day. -/
structure Clock where
  hour : Nat
  minute : Nat
  second : Nat
  microsecond : Nat
  /-- The minutes by which the zone is ahead of universal time, if it is known. -/
  offset : Option Int
deriving DecidableEq

/-- A date, maybe with a time. -/
structure Date where
  year : Nat
  month : Nat
  day : Nat
  clock : Option Clock
deriving DecidableEq

namespace Date

/-- Whether a year has a day more than others. -/
def isLeap (year : Nat) : Bool := year % 4 == 0 && (year % 100 != 0 || year % 400 == 0)

/-- The count of days in a month. -/
def daysIn (year month : Nat) : Nat :=
  if month = 2 then (if isLeap year then 29 else 28)
  else if [4, 6, 9, 11].contains month then 30
  else 31

/-- The count of days before a year. -/
def daysBeforeYear (year : Nat) : Nat :=
  let past := year - 1
  365 * past + past / 4 - past / 100 + past / 400

/-- The count of days before a date, from the first day of the year one on. -/
def daysBefore (d : Date) : Nat :=
  let days := (List.range' 1 (d.month - 1)).foldl (fun n month => n + daysIn d.year month) 0
  daysBeforeYear d.year + days + (d.day - 1)

/-- The microsecond in universal time at which a clock shows its time on a date, if the
zone is known. -/
def moment? (d : Date) : Option Int := do
  let c ← d.clock
  let offset ← c.offset
  let minutes : Int := 24 * 60 * d.daysBefore + 60 * c.hour + c.minute - offset
  return 1000000 * (60 * minutes + c.second) + c.microsecond

/-- Whether two dates are the same. Times with zones are the same if they are one
moment. -/
def isSame (d e : Date) : Bool :=
  match d.moment?, e.moment? with
  | some m, some n => m == n
  | _, _ => d == e

/-- Whether a date and its time exist. -/
def doesExist (d : Date) : Bool :=
  1 ≤ d.year && d.year ≤ 9999 && 1 ≤ d.month && d.month ≤ 12 && 1 ≤ d.day
    && d.day ≤ daysIn d.year d.month
    && d.clock.all fun c => c.hour < 24 && c.minute < 60 && c.second < 60
      && c.offset.all fun o => o.natAbs < 24 * 60

/-- The microseconds that a written fraction of a second stands for; further digits
are dropped. -/
def microseconds (fraction : List Char) : Nat :=
  Number.ofDigits ((fraction ++ List.replicate 6 '0').take 6)

/-- The minutes that a written zone is ahead. -/
def offsetOf : Tag.Zone → Int
  | .universal => 0
  | .offset isWest hours minutes =>
    let ahead : Int := (60 * Number.ofDigits hours + Number.ofDigits minutes : Nat)
    if isWest then -ahead else ahead

/-- The time that a written one stands for. -/
def clockOf (c : Tag.ClockText) : Clock where
  hour := Number.ofDigits c.hour
  minute := Number.ofDigits c.minute
  second := Number.ofDigits c.second
  microsecond := microseconds c.fraction
  offset := c.zone.map offsetOf

/-- The date that a written one stands for. -/
def ofText (d : Tag.DateText) : Date where
  year := Number.ofDigits d.year
  month := Number.ofDigits d.month
  day := Number.ofDigits d.day
  clock := d.clock.map clockOf

/-- A number in at least some digits. -/
def padded (width n : Nat) : String :=
  let digits := Number.digits n
  String.ofList (List.replicate (width - digits.length) '0' ++ digits)

/-- An offset in hours and minutes behind its sign. -/
def offsetText (o : Int) : String :=
  (if o < 0 then "-" else "+") ++ padded 2 (o.natAbs / 60) ++ ":" ++ padded 2 (o.natAbs % 60)

/-- The time of a day, its fraction only where there is one. -/
def clockText (c : Clock) : String :=
  padded 2 c.hour ++ ":" ++ padded 2 c.minute ++ ":" ++ padded 2 c.second
    ++ (if c.microsecond = 0 then "" else "." ++ padded 6 c.microsecond)
    ++ (c.offset.map offsetText).getD ""

/-- A date with its time, in words of digits. -/
def text (d : Date) : String :=
  padded 4 d.year ++ "-" ++ padded 2 d.month ++ "-" ++ padded 2 d.day
    ++ (d.clock.map fun c => " " ++ clockText c).getD ""

end Date

end ApiSurface.Yaml
