import Stencil.Calendar.Pattern
import Stencil.Calendar.Text

/-!
# Writing a date by a pattern

## Main definitions

* `Moment` - a date and time, with or without a zone
* `Item.write?` - the text of one item
* `Moment.format?` - the text of a moment by the items of a pattern

## Design notes

A moment without a zone has no text for the items that name the zone or its offset; then the
whole pattern has none. The only zone is Universal Time.

Numbers of two digits are written digit by digit. A century beyond 99, or before year 0, is
cut to eight bits, and its tens can exceed nine; the character that stands as far behind `0`
is written then.
-/

namespace Stencil.Calendar

open Number

/-- A date and time, with or without the zone of Universal Time. -/
structure Moment where
  time : DateTime
  zoned : Bool

/-- A number in front of which blanks or zeros fill a width. -/
def Pad.fill (pad : Pad) (width : Nat) (text : List Char) : List Char :=
  match pad with
  | .none => text
  | .zero => padLeft '0' width text
  | .blank => padLeft ' ' width text

/-- A number of two digits, from its lowest eight bits. -/
def twoDigits (pad : Pad) (n : Int) : List Char :=
  let n := (n % 256).toNat
  let tens := match n / 10, pad with
    | 0, .none => []
    | 0, .blank => [' ']
    | tens, _ => [digitChar tens]
  tens ++ [digitChar (n % 10)]

/-- A number with a sign if it is negative or if one is asked for. Zeros stand behind the sign,
blanks in front of it. -/
def signedDigits (pad : Pad) (width : Nat) (always : Bool) (n : Int) : List Char :=
  let sign := if n < 0 then ['-'] else if always then ['+'] else []
  match pad with
  | .none => sign ++ digits n.natAbs
  | .zero => sign ++ padLeft '0' (width - sign.length) (digits n.natAbs)
  | .blank => padLeft ' ' width (sign ++ digits n.natAbs)

/-- A year with four digits, and with a sign if it lies outside of 0 to 9999. -/
def yearDigits (pad : Pad) (year : Int) : List Char :=
  let always : Bool := year < 0 || 9999 < year
  signedDigits pad (if always then 5 else 4) always year

/-- The names of the months. -/
def monthNames : List String :=
  ["January", "February", "March", "April", "May", "June", "July", "August", "September",
    "October", "November", "December"]

/-- The names of the weekdays, from Monday. -/
def weekdayNames : List String :=
  ["Monday", "Tuesday", "Wednesday", "Thursday", "Friday", "Saturday", "Sunday"]

/-- A name from a list, or its first three letters. -/
def nameOf (names : List String) (i : Nat) (short : Bool) : List Char :=
  match names[i]? with
  | none => []
  | some name => if short then name.toList.take 3 else name.toList

/-- The hour on a clock of twelve hours. -/
def TimeOfDay.hourOfHalf (t : TimeOfDay) : Nat :=
  if t.hour % 12 = 0 then 12 else t.hour % 12

/-- The text of a number of a date and time. -/
def Field.write (field : Field) (pad : Pad) (t : DateTime) : List Char :=
  let date := t.date
  let time := t.time
  match field with
  | .year => yearDigits pad date.year
  | .century => twoDigits pad (date.year / 100)
  | .yearOfCentury => twoDigits pad (date.year % 100)
  | .isoYear => yearDigits pad date.isoWeek.1
  | .isoYearOfCentury => twoDigits pad (date.isoWeek.1 % 100)
  | .quarter => [digitChar ((date.month - 1) / 3 + 1)]
  | .month => twoDigits pad date.month
  | .day => twoDigits pad date.day
  | .weekFromSunday => twoDigits pad (date.weekOfYear 6)
  | .weekFromMonday => twoDigits pad (date.weekOfYear 0)
  | .isoWeek => twoDigits pad date.isoWeek.2
  | .weekdayFromSunday => [digitChar ((date.weekday + 1) % 7)]
  | .weekdayFromMonday => [digitChar (date.weekday + 1)]
  | .dayOfYear => pad.fill 3 (digits date.dayOfYear)
  | .hour => twoDigits pad time.hour
  | .hourOfHalf => twoDigits pad time.hourOfHalf
  | .minute => twoDigits pad time.minute
  | .second => twoDigits pad time.shownSecond
  | .nanosecond => pad.fill 9 (digits time.fraction)
  | .timestamp => signedDigits pad 9 false t.timestamp

/-- The text of a phrase; `none` if it needs a zone and there is none. -/
def Phrase.write? (phrase : Phrase) (m : Moment) : Option (List Char) :=
  let date := m.time.date
  let time := m.time.time
  let inZone (text : List Char) : Option (List Char) := if m.zoned then some text else none
  match phrase with
  | .shortMonth => some (nameOf monthNames (date.month - 1) true)
  | .longMonth => some (nameOf monthNames (date.month - 1) false)
  | .shortWeekday => some (nameOf weekdayNames date.weekday true)
  | .longWeekday => some (nameOf weekdayNames date.weekday false)
  | .lowerHalf => some (if time.hour < 12 then ['a', 'm'] else ['p', 'm'])
  | .upperHalf => some (if time.hour < 12 then ['A', 'M'] else ['P', 'M'])
  | .fraction => some (fractionText time.fraction)
  | .fractionDigits count point =>
    let ds := fixed count (time.fraction / Nat.pow 10 (9 - count))
    some (if point then '.' :: ds else ds)
  | .zoneName => inZone ['U', 'T', 'C']
  | .offset => inZone ['+', '0', '0', '0', '0']
  | .offsetColon => inZone ['+', '0', '0', ':', '0', '0']
  | .offsetSeconds => inZone ['+', '0', '0', ':', '0', '0', ':', '0', '0']
  | .offsetHours => inZone ['+', '0', '0']
  | .offsetLoose => none
  | .rfc3339 => inZone m.time.utcChars

/-- The text of an item; `none` if it needs a zone and there is none. -/
def Item.write? (m : Moment) : Item → Option (List Char)
  | .char c => some [c]
  | .field f pad => some (f.write pad m.time)
  | .phrase p => p.write? m

/-- The text of a moment by the items of a pattern; `none` if one of them needs a zone and there
is none. -/
def Moment.format? (m : Moment) : List Item → Option (List Char)
  | [] => some []
  | item :: items => do
    let front ← item.write? m
    let rest ← m.format? items
    return front ++ rest

end Stencil.Calendar
