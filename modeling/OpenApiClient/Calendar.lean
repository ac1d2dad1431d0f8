import OpenApiClient.Text.Basic

/-!
# Dates and points in time

Dates of the proleptic Gregorian calendar from year 1 to year 9999, and points in time with
microseconds and an optional distance from universal time in seconds.
-/

namespace OpenApiClient.Calendar

open Text

/-- Whether a year has a 29th of February. -/
def isLeap (year : Nat) : Bool :=
  year % 4 == 0 && (year % 100 != 0 || year % 400 == 0)

/-- The number of days of a month. -/
def daysIn (year month : Nat) : Nat :=
  if month = 2 then (if isLeap year then 29 else 28)
  else if month = 4 || month = 6 || month = 9 || month = 11 then 30
  else 31

/-- A calendar day. -/
structure Date where
  year : Nat
  month : Nat
  day : Nat
  deriving DecidableEq, Repr, Inhabited

/-- The day, if the calendar has it. -/
def Date.of? (year month day : Nat) : Option Date :=
  if 1 ≤ year && year ≤ 9999 && 1 ≤ month && month ≤ 12 && 1 ≤ day &&
      day ≤ daysIn year month then
    some ⟨year, month, day⟩
  else none

/-- Days before the first day of a year, counted from the first day of year 1. -/
def daysBeforeYear (year : Nat) : Nat :=
  let y := year - 1
  y * 365 + y / 4 - y / 100 + y / 400

/-- Days before the first of a month within its year. -/
def daysBeforeMonth (year month : Nat) : Nat :=
  ((List.range (month - 1)).map fun m => daysIn year (m + 1)).foldl (· + ·) 0

/-- The number of a day. -/
def Date.ordinal (d : Date) : Nat :=
  daysBeforeYear d.year + daysBeforeMonth d.year d.month + d.day

/-- Year, month and day with dashes. -/
def Date.iso (d : Date) : String :=
  padded 4 d.year ++ "-" ++ padded 2 d.month ++ "-" ++ padded 2 d.day

/-- A point in time on a wall clock; `offset` is the clock's distance from universal time in
seconds. -/
structure Moment where
  date : Date
  hour : Nat
  minute : Nat
  second : Nat
  micro : Nat
  offset : Option Int
  deriving DecidableEq, Repr, Inhabited

/-- Seconds of a day. -/
def secondsPerDay : Nat := 86400

/-- The point in time, if the clock shows it and the distance is less than a day. -/
def Moment.of? (date : Date) (hour minute second micro : Nat) (offset : Option Int) :
    Option Moment :=
  if hour < 24 && minute < 60 && second < 60 && micro < 1000000 &&
      offset.all (fun o => -(secondsPerDay : Int) < o && o < secondsPerDay) then
    some ⟨date, hour, minute, second, micro, offset⟩
  else none

/-- Microseconds since the start of year 1, in universal time if the distance is known. -/
def Moment.instant (m : Moment) : Int :=
  let seconds : Int :=
    ((m.date.ordinal * 24 + m.hour) * 60 + m.minute) * 60 + m.second - m.offset.getD 0
  seconds * 1000000 + m.micro

/-- Two points in time are the same if both clocks have a known distance from universal time
and show the same instant, or neither has and they show the same. -/
def Moment.same (a b : Moment) : Bool :=
  a.offset.isSome == b.offset.isSome && a.instant == b.instant

/-- A distance from universal time: sign, hours and minutes. -/
def offsetText (o : Int) : String :=
  let n := o.natAbs
  (if o < 0 then "-" else "+") ++ padded 2 (n / 3600) ++ ":" ++ padded 2 (n / 60 % 60)

/-- Date and time with a separator between them; microseconds only if there are any. -/
def Moment.text (separator : String) (m : Moment) : String :=
  m.date.iso ++ separator ++ padded 2 m.hour ++ ":" ++ padded 2 m.minute ++ ":" ++
    padded 2 m.second ++ (if m.micro = 0 then "" else "." ++ padded 6 m.micro) ++
    (m.offset.map offsetText).getD ""

/-- Date and time with a `T` between them. -/
def Moment.iso (m : Moment) : String := m.text "T"

end OpenApiClient.Calendar
