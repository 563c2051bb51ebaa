import Stencil.Calendar.Date
import Stencil.Number.Digits

/-!
# The text of dates and times

The forms of ISO 8601 in which dates and times are shown where no pattern is given. A year has
four digits, and a sign if it lies outside of 0 to 9999. Fractions of a second have three, six
or nine digits, as few as are needed, and are left out when they are zero.

## Main definitions

* `Date.text`, `TimeOfDay.text` - a date and a time by themselves
* `DateTime.text` - date and time, with a blank between them
* `DateTime.utcText` - date and time with the offset of Universal Time
-/

namespace Stencil.Calendar

open Number

/-- A number with at least `width` digits. -/
def fixed (width n : Nat) : List Char :=
  padLeft '0' width (digits n)

/-- A year with four digits, and with a sign if it lies outside of 0 to 9999. -/
def yearText (year : Int) : List Char :=
  if 0 ≤ year ∧ year ≤ 9999 then fixed 4 year.natAbs
  else (if year < 0 then '-' else '+') :: fixed 4 year.natAbs

/-- Year, month and day with hyphens between them. -/
def Date.chars (d : Date) : List Char :=
  yearText d.year ++ '-' :: fixed 2 d.month ++ '-' :: fixed 2 d.day

/-- The text of a date. -/
def Date.text (d : Date) : String :=
  String.ofList d.chars

/-- A fraction of a second with its point, in three, six or nine digits; nothing if it is
zero. -/
def fractionText (nanoseconds : Nat) : List Char :=
  if nanoseconds = 0 then []
  else if nanoseconds % 1000000 = 0 then '.' :: fixed 3 (nanoseconds / 1000000)
  else if nanoseconds % 1000 = 0 then '.' :: fixed 6 (nanoseconds / 1000)
  else '.' :: fixed 9 nanoseconds

/-- Hour, minute, second and fraction. -/
def TimeOfDay.chars (t : TimeOfDay) : List Char :=
  fixed 2 t.hour ++ ':' :: fixed 2 t.minute ++ ':' :: fixed 2 t.shownSecond ++
    fractionText t.fraction

/-- The text of a time of day. -/
def TimeOfDay.text (t : TimeOfDay) : String :=
  String.ofList t.chars

/-- The text of a date and time without a zone. -/
def DateTime.text (t : DateTime) : String :=
  String.ofList (t.date.chars ++ ' ' :: t.time.chars)

/-- Date and time by RFC 3339, with the offset of Universal Time. -/
def DateTime.utcChars (t : DateTime) : List Char :=
  t.date.chars ++ 'T' :: t.time.chars ++ ['+', '0', '0', ':', '0', '0']

/-- The text of a date and time in Universal Time. -/
def DateTime.utcText (t : DateTime) : String :=
  String.ofList t.utcChars

end Stencil.Calendar
