/-!
# The time in the heading

A moment, counted in seconds from the start of the year 1970, as the first
line of a declaration file has it: weekday, date and time of day in
universal time.
-/

namespace Ambient

/-- A day of the calendar. -/
structure CivilDate where
  year : Int
  month : Nat
  day : Nat
  deriving DecidableEq, Repr

/-- The date so many days after the first of January 1970. Years are counted
from March on, so that a leap day comes last, and in cycles of 400 years,
which all have the same number of days. -/
def CivilDate.ofDays (days : Int) : CivilDate :=
  let shifted := days + 719468
  let cycle := shifted / 146097
  let dayOfCycle := (shifted % 146097).toNat
  let yearOfCycle :=
    (dayOfCycle - dayOfCycle / 1460 + dayOfCycle / 36524 - dayOfCycle / 146096) / 365
  let dayOfYear := dayOfCycle - (365 * yearOfCycle + yearOfCycle / 4 - yearOfCycle / 100)
  let shiftedMonth := (5 * dayOfYear + 2) / 153
  let day := dayOfYear - (153 * shiftedMonth + 2) / 5 + 1
  let month := if shiftedMonth < 10 then shiftedMonth + 3 else shiftedMonth - 9
  ⟨yearOfCycle + cycle * 400 + (if month ≤ 2 then 1 else 0), month, day⟩

/-- The weekdays from Thursday on, the day on which 1970 started. -/
def weekdayNames : List String := ["Thu", "Fri", "Sat", "Sun", "Mon", "Tue", "Wed"]

/-- The months from January on. -/
def monthNames : List String :=
  ["Jan", "Feb", "Mar", "Apr", "May", "Jun", "Jul", "Aug", "Sep", "Oct", "Nov", "Dec"]

/-- A number with at least two digits. -/
def twoDigits (n : Nat) : String :=
  if n < 10 then "0" ++ toString n else toString n

/-- The text of a moment. -/
def timeText (seconds : Int) : String :=
  let days := seconds / 86400
  let second := (seconds % 86400).toNat
  let date := CivilDate.ofDays days
  weekdayNames.getD (days % 7).toNat "" ++ " " ++ monthNames.getD (date.month - 1) "" ++ " " ++
    twoDigits date.day ++ " " ++ toString date.year ++ " " ++ twoDigits (second / 3600) ++ ":" ++
    twoDigits (second / 60 % 60) ++ ":" ++ twoDigits (second % 60) ++ " GMT+0000"

example : CivilDate.ofDays 0 = ⟨1970, 1, 1⟩ := by decide +kernel
example : CivilDate.ofDays 11016 = ⟨2000, 2, 29⟩ := by decide +kernel
example : timeText 951782400 = "Tue Feb 29 2000 00:00:00 GMT+0000" := by decide +kernel

end Ambient
