import Stencil.Calendar.Date
import Stencil.Number.Digits
import Stencil.Text.Blank
import Stencil.Text.Search

/-!
# Reading dates

Texts are recognised as dates in four forms: the date and time of RFC 3339 with an offset, a
date and time with a blank or a `T` between them, and a date by itself.

## Main definitions

* `readRfc3339?` - the form with an offset, as local time and offset
* `readDate?`, `readSpaced?`, `readJoined?` - the other forms
* `readDateTime?` - any of the four forms
* `readUniversal?` - a date and time with an offset, in Universal Time

## Design notes

The form of RFC 3339 has a fixed width. In the other forms a number has at most the given
number of digits and may have blanks in front of it, and a year with a sign may have any number
of digits. The seconds of a minute go up to 60 in every form.
-/

namespace Stencil.Calendar

open Number Text

/-- A number of at least `least` and at most `most` digits in front of a text. -/
def readNumber? (least most : Nat) (text : List Char) : Option (Nat × List Char) :=
  let ds := (text.take most).takeWhile isDigit
  if ds.length < least then none else some (ofDigits ds, text.drop ds.length)

/-- A year: with a sign any number of digits, without one at most four. -/
def readYear? (text : List Char) : Option (Int × List Char) :=
  match trimStart text with
  | '-' :: rest => (readNumber? 1 rest.length rest).map fun (n, rest) => (-(n : Int), rest)
  | '+' :: rest => (readNumber? 1 rest.length rest).map fun (n, rest) => ((n : Int), rest)
  | rest => (readNumber? 1 4 rest).map fun (n, rest) => ((n : Int), rest)

/-- A number of one or two digits behind blanks. -/
def readPair? (text : List Char) : Option (Nat × List Char) :=
  readNumber? 1 2 (trimStart text)

/-- The time of the given parts, where the second 60 is a leap second. -/
def timeOf? (hour minute second nanosecond : Nat) : Option TimeOfDay :=
  if second = 60 then TimeOfDay.of? hour minute 59 (nanosecond + 1000000000)
  else TimeOfDay.of? hour minute second nanosecond

/-- A fraction of a second behind its point, in nanoseconds. Digits beyond the ninth are
passed over. -/
def readFraction? (text : List Char) : Option (Nat × List Char) := do
  let (n, rest) ← readNumber? 1 9 text
  let count := text.length - rest.length
  return (n * Nat.pow 10 (9 - count), rest.dropWhile isDigit)

/-- A date in front of a text: year, month and day with hyphens between them. -/
def readYmd? (text : List Char) : Option ((Int × Nat × Nat) × List Char) := do
  let (year, text) ← readYear? text
  let text ← dropMark? ['-'] text
  let (month, text) ← readPair? text
  let text ← dropMark? ['-'] text
  let (day, text) ← readPair? text
  return ((year, month, day), text)

/-- A time in front of a text: hour, minute and second with colons between them. -/
def readHms? (text : List Char) : Option ((Nat × Nat × Nat) × List Char) := do
  let (hour, text) ← readPair? text
  let text ← dropMark? [':'] text
  let (minute, text) ← readPair? text
  let text ← dropMark? [':'] text
  let (second, text) ← readPair? text
  return ((hour, minute, second), text)

/-- A date and time of the given parts. -/
def dateTimeOf? (ymd : Int × Nat × Nat) (hms : Nat × Nat × Nat) (nanosecond : Nat) :
    Option DateTime := do
  let date ← Date.of? ymd.1 ymd.2.1 ymd.2.2
  let time ← timeOf? hms.1 hms.2.1 hms.2.2 nanosecond
  return ⟨date, time⟩

/-- A date that fills a text. -/
def readDate? (text : List Char) : Option Date := do
  let ((year, month, day), rest) ← readYmd? text
  if rest = [] then Date.of? year month day else none

/-- A date and a time that fill a text, with any number of blanks between them. -/
def readSpaced? (text : List Char) : Option DateTime := do
  let (ymd, text) ← readYmd? text
  let (hms, rest) ← readHms? text
  if rest = [] then dateTimeOf? ymd hms 0 else none

/-- A date and a time in front of a text, with a `T` between them. The seconds may have a
fraction. -/
def readJoinedFront? (text : List Char) : Option (DateTime × List Char) := do
  let (ymd, text) ← readYmd? text
  let text ← dropMark? ['T'] text
  let (hms, text) ← readHms? text
  let (nanosecond, rest) ← match text with
    | '.' :: rest => readFraction? rest
    | _ => some (0, text)
  return (← dateTimeOf? ymd hms nanosecond, rest)

/-- A date and a time that fill a text, with a `T` between them. -/
def readJoined? (text : List Char) : Option DateTime := do
  let (time, rest) ← readJoinedFront? text
  if rest = [] then some time else none

/-- The offset of a zone in seconds: `Z`, or a sign and hours and minutes. The sign may be the
minus sign of typography. -/
def readOffset? (text : List Char) : Option (Int × List Char) :=
  match text with
  | 'Z' :: rest => some (0, rest)
  | 'z' :: rest => some (0, rest)
  | sign :: rest =>
    if sign = '+' ∨ sign = '-' ∨ sign = '−' then do
      let (hours, rest) ← readNumber? 2 2 rest
      let rest ← dropMark? [':'] rest
      let (minutes, rest) ← readNumber? 2 2 rest
      let seconds : Int := hours * 3600 + minutes * 60
      if hours < 24 ∧ minutes < 60 then
        some (if sign = '+' then seconds else -seconds, rest)
      else none
    else none
  | [] => none

/-- A date and time with an offset that fills a text, by RFC 3339: the local time and the offset
in seconds. -/
def readRfc3339? (text : List Char) : Option (DateTime × Int) := do
  let (year, text) ← readNumber? 4 4 text
  let text ← dropMark? ['-'] text
  let (month, text) ← readNumber? 2 2 text
  let text ← dropMark? ['-'] text
  let (day, text) ← readNumber? 2 2 text
  let text ← match text with
    | c :: text => if c = 'T' ∨ c = 't' ∨ c = ' ' then some text else none
    | [] => none
  let (hour, text) ← readNumber? 2 2 text
  let text ← dropMark? [':'] text
  let (minute, text) ← readNumber? 2 2 text
  let text ← dropMark? [':'] text
  let (second, text) ← readNumber? 2 2 text
  let (nanosecond, text) ← match text with
    | '.' :: rest => readFraction? rest
    | _ => some (0, text)
  let (offset, rest) ← readOffset? text
  let time ← dateTimeOf? (year, month, day) (hour, minute, second) nanosecond
  if rest = [] then some (time, offset) else none

/-- A date and time in any of the forms, without regard to the offset. A date by itself stands
for its midnight. -/
def readDateTime? (text : List Char) : Option DateTime :=
  ((readRfc3339? text).map Prod.fst)
    <|> readSpaced? text
    <|> readJoined? text
    <|> (readDate? text).map fun date => ⟨date, TimeOfDay.midnight⟩

/-- The time of a local time and its offset in Universal Time. -/
def DateTime.toUniversal? (t : DateTime) (offset : Int) : Option DateTime := do
  let shifted ← DateTime.ofTimestamp? (t.timestamp - offset)
  let time ← TimeOfDay.of? shifted.time.hour shifted.time.minute shifted.time.second
    t.time.nanosecond
  return ⟨shifted.date, time⟩

/-- A date and a time that fill a text, with a `T` between them and an offset behind them, in
Universal Time. -/
def readUniversal? (text : List Char) : Option DateTime := do
  let (time, text) ← readJoinedFront? text
  let (offset, rest) ← readOffset? text
  if rest = [] then time.toUniversal? offset else none

end Stencil.Calendar
