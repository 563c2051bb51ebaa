import Stencil.Text.Blank

/-!
# Date patterns

A date pattern is a text in which a percent sign and a letter stand for a part of a date or
time, as in `%Y-%m-%d`. This module reads a pattern into its items; a pattern with an unknown
specifier is refused as a whole.

## Main definitions

* `Pad` - how a number is filled up to its width
* `Field` - the numbers of a date and time
* `Phrase` - the names and composite forms
* `Item` - the items of a pattern
* `Pattern.read?` - the items of a pattern text

## Design notes

A hyphen, a zero or an underscore between the percent sign and the letter changes how a number
is filled up. It is refused in front of anything but a single number. A few
letters are abbreviations of several items, such as `%F` of `%Y-%m-%d`.
-/

namespace Stencil.Calendar

/-- How a number is filled up to its width: not at all, with zeros, or with blanks. -/
inductive Pad where
  | none
  | zero
  | blank
  deriving Repr, DecidableEq

/-- The numbers of a date and time. -/
inductive Field where
  | year
  | century
  | yearOfCentury
  | isoYear
  | isoYearOfCentury
  | quarter
  | month
  | day
  | weekFromSunday
  | weekFromMonday
  | isoWeek
  | weekdayFromSunday
  | weekdayFromMonday
  | dayOfYear
  | hour
  | hourOfHalf
  | minute
  | second
  | nanosecond
  | timestamp
  deriving Repr, DecidableEq

/-- The names of months and weekdays, the halves of a day, fractions of a second and the
forms of a zone. -/
inductive Phrase where
  | shortMonth
  | longMonth
  | shortWeekday
  | longWeekday
  | lowerHalf
  | upperHalf
  | fraction
  | fractionDigits (count : Nat) (point : Bool)
  | zoneName
  | offset
  | offsetColon
  | offsetSeconds
  | offsetHours
  | offsetLoose
  | rfc3339
  deriving Repr, DecidableEq

/-- The items of a pattern: a character that stands for itself, a number, or a phrase. -/
inductive Item where
  | char (c : Char)
  | field (field : Field) (pad : Pad)
  | phrase (phrase : Phrase)
  deriving Repr, DecidableEq

namespace Item

/-- Year, month and day with hyphens between them. -/
def isoDate : List Item :=
  [.field .year .zero, .char '-', .field .month .zero, .char '-', .field .day .zero]

/-- Hour and minute. -/
def clock : List Item :=
  [.field .hour .zero, .char ':', .field .minute .zero]

/-- Hour, minute and second. -/
def fullClock : List Item :=
  clock ++ [.char ':', .field .second .zero]

/-- Month, day and year of the century with slashes between them. -/
def slashDate : List Item :=
  [.field .month .zero, .char '/', .field .day .zero, .char '/', .field .yearOfCentury .zero]

/-- Weekday, month, day, time and year. -/
def longForm : List Item :=
  [.phrase .shortWeekday, .char ' ', .phrase .shortMonth, .char ' ', .field .day .blank,
    .char ' '] ++ fullClock ++ [.char ' ', .field .year .zero]

/-- The time on a clock of twelve hours. -/
def halfClock : List Item :=
  [.field .hourOfHalf .zero, .char ':', .field .minute .zero, .char ':', .field .second .zero,
    .char ' ', .phrase .upperHalf]

/-- Day, month name and year with hyphens between them. -/
def namedDate : List Item :=
  [.field .day .blank, .char '-', .phrase .shortMonth, .char '-', .field .year .zero]

/-- The items that a single letter stands for. -/
def ofLetter? (c : Char) : Option (List Item) :=
  match c with
  | 'A' => some [.phrase .longWeekday]
  | 'B' => some [.phrase .longMonth]
  | 'C' => some [.field .century .zero]
  | 'D' => some slashDate
  | 'F' => some isoDate
  | 'G' => some [.field .isoYear .zero]
  | 'H' => some [.field .hour .zero]
  | 'I' => some [.field .hourOfHalf .zero]
  | 'M' => some [.field .minute .zero]
  | 'P' => some [.phrase .lowerHalf]
  | 'R' => some clock
  | 'S' => some [.field .second .zero]
  | 'T' => some fullClock
  | 'U' => some [.field .weekFromSunday .zero]
  | 'V' => some [.field .isoWeek .zero]
  | 'W' => some [.field .weekFromMonday .zero]
  | 'X' => some fullClock
  | 'Y' => some [.field .year .zero]
  | 'Z' => some [.phrase .zoneName]
  | 'a' => some [.phrase .shortWeekday]
  | 'b' => some [.phrase .shortMonth]
  | 'c' => some longForm
  | 'd' => some [.field .day .zero]
  | 'e' => some [.field .day .blank]
  | 'f' => some [.field .nanosecond .zero]
  | 'g' => some [.field .isoYearOfCentury .zero]
  | 'h' => some [.phrase .shortMonth]
  | 'j' => some [.field .dayOfYear .zero]
  | 'k' => some [.field .hour .blank]
  | 'l' => some [.field .hourOfHalf .blank]
  | 'm' => some [.field .month .zero]
  | 'n' => some [.char '\n']
  | 'p' => some [.phrase .upperHalf]
  | 'q' => some [.field .quarter .none]
  | 'r' => some halfClock
  | 's' => some [.field .timestamp .none]
  | 't' => some [.char '\t']
  | 'u' => some [.field .weekdayFromMonday .none]
  | 'v' => some namedDate
  | 'w' => some [.field .weekdayFromSunday .none]
  | 'x' => some slashDate
  | 'y' => some [.field .yearOfCentury .zero]
  | 'z' => some [.phrase .offset]
  | '+' => some [.phrase .rfc3339]
  | '%' => some [.char '%']
  | _ => none

/-- The number that a single letter stands for, filled up in another way. -/
def padded? (pad : Pad) (c : Char) : Option (List Item) :=
  match ofLetter? c with
  | some [.field f _] => some [.field f pad]
  | _ => none

end Item

namespace Pattern

/-- The items of a specifier, given the text behind the percent sign, and the text behind
the specifier. -/
def specifier? : List Char → Option (List Item × List Char)
  | ':' :: ':' :: ':' :: 'z' :: rest => some ([.phrase .offsetHours], rest)
  | ':' :: ':' :: 'z' :: rest => some ([.phrase .offsetSeconds], rest)
  | ':' :: 'z' :: rest => some ([.phrase .offsetColon], rest)
  | '#' :: 'z' :: rest => some ([.phrase .offsetLoose], rest)
  | '.' :: 'f' :: rest => some ([.phrase .fraction], rest)
  | '.' :: '3' :: 'f' :: rest => some ([.phrase (.fractionDigits 3 true)], rest)
  | '.' :: '6' :: 'f' :: rest => some ([.phrase (.fractionDigits 6 true)], rest)
  | '.' :: '9' :: 'f' :: rest => some ([.phrase (.fractionDigits 9 true)], rest)
  | '3' :: 'f' :: rest => some ([.phrase (.fractionDigits 3 false)], rest)
  | '6' :: 'f' :: rest => some ([.phrase (.fractionDigits 6 false)], rest)
  | '9' :: 'f' :: rest => some ([.phrase (.fractionDigits 9 false)], rest)
  | '-' :: c :: rest => (Item.padded? .none c).map (·, rest)
  | '0' :: c :: rest => (Item.padded? .zero c).map (·, rest)
  | '_' :: c :: rest => (Item.padded? .blank c).map (·, rest)
  | c :: rest => (Item.ofLetter? c).map (·, rest)
  | [] => none

/-- A specifier takes at least one character. -/
theorem length_of_specifier? {text rest : List Char} {items : List Item}
    (h : specifier? text = some (items, rest)) : rest.length < text.length := by
  unfold specifier? at h
  split at h <;> simp_all <;> grind

/-- The items of a pattern text; `none` if it has an unknown specifier. -/
def read? : List Char → Option (List Item)
  | [] => some []
  | c :: text =>
    if c = '%' then
      match _h : specifier? text with
      | none => none
      | some (items, rest) => (read? rest).map (items ++ ·)
    else (read? text).map (.char c :: ·)
termination_by text => text.length
decreasing_by
  · have := length_of_specifier? _h
    simp only [List.length_cons]
    omega
  · simp

end Pattern

end Stencil.Calendar
