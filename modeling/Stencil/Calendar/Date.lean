/-!
# Dates and times of day

The Gregorian calendar, extended to all years before its introduction, and the
time of day to the nanosecond. A leap second is the sixtieth second of a minute and is kept
as nanoseconds beyond the first thousand million of second 59.

## Main definitions

* `Date`, `TimeOfDay`, `DateTime` - valid dates and times
* `Date.dayNumber`, `Date.ofDayNumber?` - dates and the number of days since 1970-01-01
* `Date.weekday`, `Date.dayOfYear`, `Date.isoWeek` - the place of a date in week and year
* `DateTime.timestamp`, `DateTime.ofTimestamp?` - seconds since 1970-01-01
-/

namespace Stencil.Calendar

/-- Whether a year has a 29th of February. -/
def isLeapYear (year : Int) : Bool :=
  year % 4 == 0 && (year % 100 != 0 || year % 400 == 0)

/-- The number of days of a month. -/
def daysInMonth (year : Int) (month : Nat) : Nat :=
  if month = 2 then (if isLeapYear year then 29 else 28)
  else if month = 4 ∨ month = 6 ∨ month = 9 ∨ month = 11 then 30
  else 31

/-- The dates of the calendar within the years from -262143 to 262142. -/
structure Date where
  year : Int
  month : Nat
  day : Nat
  year_range : -262143 ≤ year ∧ year ≤ 262142
  month_range : 1 ≤ month ∧ month ≤ 12
  day_range : 1 ≤ day ∧ day ≤ daysInMonth year month

/-- The times of a day. -/
structure TimeOfDay where
  hour : Nat
  minute : Nat
  second : Nat
  nanosecond : Nat
  hour_lt : hour < 24
  minute_lt : minute < 60
  second_lt : second < 60
  nanosecond_lt : nanosecond < 2000000000

/-- A date and a time of day. -/
structure DateTime where
  date : Date
  time : TimeOfDay

namespace Date

/-- The date of a year, month and day, if there is such a date. -/
def of? (year : Int) (month day : Nat) : Option Date :=
  if hy : -262143 ≤ year ∧ year ≤ 262142 then
    if hm : 1 ≤ month ∧ month ≤ 12 then
      if hd : 1 ≤ day ∧ day ≤ daysInMonth year month then some ⟨year, month, day, hy, hm, hd⟩
      else none
    else none
  else none

/-- The position of a date in its year, counted from one. -/
def dayOfYear (d : Date) : Nat :=
  (List.range (d.month - 1)).foldl (fun days m => days + daysInMonth d.year (m + 1)) d.day

/-- The number of days from 1970-01-01 to the first day of a year. -/
def yearStart (year : Int) : Int :=
  let y := year - 1
  365 * y + y / 4 - y / 100 + y / 400 - 719162

/-- The number of days from 1970-01-01 to a date. -/
def dayNumber (d : Date) : Int :=
  yearStart d.year + d.dayOfYear - 1

/-- The date a number of days after 1970-01-01. The calendar repeats every 400 years; within
such an era the year is counted from the first of March, so that a leap day ends it. -/
def ofDayNumber? (n : Int) : Option Date :=
  let z := n + 719468
  let era := z / 146097
  let dayOfEra := z % 146097
  let yearOfEra :=
    (dayOfEra - dayOfEra / 1460 + dayOfEra / 36524 - dayOfEra / 146096) / 365
  let day := dayOfEra - (365 * yearOfEra + yearOfEra / 4 - yearOfEra / 100)
  let m := (5 * day + 2) / 153
  let month := if m < 10 then m + 3 else m - 9
  let year := yearOfEra + era * 400 + (if month ≤ 2 then 1 else 0)
  of? year month.toNat (day - (153 * m + 2) / 5 + 1).toNat

/-- The day of the week, from 0 for Monday to 6 for Sunday. -/
def weekday (d : Date) : Nat :=
  ((d.dayNumber + 3) % 7).toNat

/-- The number of the week in the year, where weeks start on the given weekday and days
before the first such day lie in week 0. -/
def weekOfYear (d : Date) (start : Nat) : Nat :=
  (d.dayOfYear + 6 - (d.weekday + 7 - start) % 7) / 7

/-- The year and number of the week of a date by ISO 8601: weeks start on Monday, and a
week belongs to the year that holds its Thursday. -/
def isoWeek (d : Date) : Int × Nat :=
  let thursday := d.dayNumber - d.weekday + 3
  let year :=
    if thursday < yearStart d.year then d.year - 1
    else if yearStart (d.year + 1) ≤ thursday then d.year + 1
    else d.year
  (year, ((thursday - yearStart year) / 7).toNat + 1)

end Date

namespace TimeOfDay

/-- The time of the given parts, if there is such a time. Nanoseconds beyond a thousand
million are those of a leap second. -/
def of? (hour minute second nanosecond : Nat) : Option TimeOfDay :=
  if h : hour < 24 ∧ minute < 60 ∧ second < 60 ∧ nanosecond < 2000000000 then
    if nanosecond < 1000000000 ∨ second = 59 then
      some ⟨hour, minute, second, nanosecond, h.1, h.2.1, h.2.2.1, h.2.2.2⟩
    else none
  else none

/-- The start of a day. -/
def midnight : TimeOfDay :=
  ⟨0, 0, 0, 0, by decide, by decide, by decide, by decide⟩

/-- The second as it is shown: 60 for a leap second. -/
def shownSecond (t : TimeOfDay) : Nat :=
  t.second + t.nanosecond / 1000000000

/-- The part of the second behind the point, in nanoseconds. -/
def fraction (t : TimeOfDay) : Nat :=
  t.nanosecond % 1000000000

end TimeOfDay

namespace DateTime

/-- The number of seconds since 1970-01-01 00:00:00; a leap second counts as the one before. -/
def timestamp (t : DateTime) : Int :=
  t.date.dayNumber * 86400 + t.time.hour * 3600 + t.time.minute * 60 + t.time.second

/-- The date and time a number of seconds after 1970-01-01 00:00:00. -/
def ofTimestamp? (seconds : Int) : Option DateTime := do
  let date ← Date.ofDayNumber? (seconds / 86400)
  let rest := (seconds % 86400).toNat
  let time ← TimeOfDay.of? (rest / 3600) (rest / 60 % 60) (rest % 60) 0
  return ⟨date, time⟩

end DateTime

end Stencil.Calendar
