import Stencil.Calendar.Format
import Stencil.Calendar.Reader
import Stencil.Helper
import Stencil.Text.Case

/-!
# The built-in helpers

Conditions and loops, fragments, and functions on texts, numbers and dates.

## Main definitions

* `Helper.variableBlock` - what a block does whose name is a variable
* `Helper.formatDate` - the text of a date by a pattern
* `Registry.builtin` - all built-in helpers by name
-/

namespace Stencil.Helper

open Program

/-- The greatest count of `repeat`. -/
def maxRepeat : Nat := 10000

/-- The pattern of `format_date` if none is given. -/
def defaultDateFormat : String := "%Y-%m-%d %H:%M:%S"

/-- What `truncate` appends if nothing is given. -/
def defaultSuffix : String := "..."

/-- The argument at a position, as a step of a program. -/
def argument (call : Invocation) (i : Nat) : Program Value :=
  .done (call.param i)

/-- `if value`: the main body for a true value, the other branches for a false one. -/
def ifTrue : Helper where
  run call := do
    let value ← argument call 0
    if value.isTruthy then body none else inverse none

/-- `unless value`: the main body for a false value, the other branches for a true one. -/
def unlessTrue : Helper where
  run call := do
    let value ← argument call 0
    if value.isTruthy then inverse none else body none

/-- `with value`: the main body in a frame of a true value, the other branches for a false
one. -/
def withValue : Helper where
  run call := do
    let value ← argument call 0
    if value.isTruthy then body (some ⟨value, none⟩) else inverse none

/-- One frame for each element of a list or entry of a map, with the variables of its turn. -/
def turns (dataVariables : Bool) : Value → List (Option Frame)
  | .list items =>
    items.mapIdx fun i item =>
      some ⟨item, some (LoopVars.iteration i items.length none dataVariables)⟩
  | .map entries =>
    entries.mapIdx fun i (key, item) =>
      some ⟨item, some (LoopVars.iteration i entries.length (some key) dataVariables)⟩
  | _ => []

/-- The main body once for each element of a list or entry of a map. -/
def iterate (call : Invocation) (value : Value) : Program String :=
  bodies "" (turns call.scope.dataVariables value)

/-- Whether a value is a list or a map. -/
def isCollection : Value → Bool
  | .list _ => true
  | .map _ => true
  | _ => false

/-- `each value`: the main body for each element or entry, the other branches if there are
none. -/
def each : Helper where
  run call := do
    let value ← argument call 0
    if value.isBlank || !isCollection value then inverse none else iterate call value

/-- What a block does whose name is a variable: a list with elements is iterated, another true
value is entered as a frame, and for a false value the other branches count. -/
def variableBlock (call : Invocation) (value : Value) : Program String :=
  match value with
  | .list (_ :: _) => iterate call value
  | _ => if value.isTruthy then body (some ⟨value, none⟩) else inverse none

/-- A function on the text of the first argument, or on the rendered body of a block without
arguments. -/
def onText (f : List Char → List Char) : Helper where
  run call := do
    let text ← match call.params with
      | value :: _ => pure value.text
      | [] => if call.isBlock then body none else Value.text <$> argument call 0
    return String.ofList (f text.toList)

/-- A text with every `%d` replaced by a count. -/
def fillCount (count : List Char) : List Char → List Char
  | '%' :: 'd' :: rest => count ++ fillCount count rest
  | c :: rest => c :: fillCount count rest
  | [] => []

/-- `inflect count singular plural`: the form that goes with the count, with the count in
it. -/
def inflect : Helper :=
  ofFunction fun call => do
    let count ← call.param 0
    let singular ← call.param 1
    let plural ← call.param 2
    let form := if count.number?.any (· == 1) then singular else plural
    return String.ofList (fillCount count.text.toList form.text.toList)

/-- `default value other`: the value, or the other one if it is blank. -/
def defaultTo : Helper :=
  ofFunction fun call => do
    let value ← call.param 0
    if value.isBlank then return (← call.param 1).text else return value.text

/-- `truncate value length suffix`: the text of the value if it has at most so many characters,
and otherwise its first characters and the suffix. -/
def truncate : Helper :=
  ofFunction fun call => do
    let text := (← call.param 0).text.toList
    let length ← call.param 1
    match length.number?.filter (0 ≤ ·) with
    | none => throw (.render .truncateLength)
    | some length =>
      let limit := Number.truncate length
      if text.length ≤ limit then return String.ofList text
      else
        let suffix := (call.params[2]?.map Value.text).getD defaultSuffix
        return String.ofList (text.take limit) ++ suffix

/-- The date and time that a value stands for, and whether it has a zone: dates, seconds since
1970-01-01, and texts in one of the forms that are recognised. -/
def moment? : Value → Option Calendar.Moment
  | .date d => some ⟨⟨d, Calendar.TimeOfDay.midnight⟩, false⟩
  | .dateTime t => some ⟨t, false⟩
  | .utc t => some ⟨t, true⟩
  | .int n => (Calendar.DateTime.ofTimestamp? n.toInt).map (⟨·, false⟩)
  | .str text => (Calendar.readDateTime? (Text.trim text.toList)).map (⟨·, false⟩)
  | _ => none

/-- The text of a value by a date pattern. A value that stands for no date is written as it
is. -/
def formatDate (value : Value) (format : String) : Except Error String :=
  match Calendar.Pattern.read? format.toList with
  | none => .error (.render (.dateFormat format))
  | some items =>
    match moment? value with
    | none => .ok value.text
    | some moment =>
      match moment.format? items with
      | none => .error .missingZone
      | some text => .ok (String.ofList text)

/-- `format_date value pattern`, see `formatDate`. -/
def formatDateHelper : Helper :=
  ofFunction fun call => do
    let value ← call.param 0
    formatDate value ((call.params[1]?.map Value.text).getD defaultDateFormat)

/-- The number of turns of `repeat`: zero for a value without a numeric view and for numbers that
are not positive. -/
def repeatCount (value : Value) : Except Error Nat :=
  let count := value.number?.getD (Number.ofInt 0)
  if count > Number.ofInt maxRepeat then .error (.render (.repeatCount count maxRepeat))
  else .ok (Number.truncate count)

/-- `repeat count`: the main body a number of times in the same frame. -/
def repeated : Helper where
  run call := do
    let value ← argument call 0
    let count ← Program.done (repeatCount value)
    bodies "" (List.replicate count none)

/-- The name of a fragment: the first argument as it is written. -/
def fragmentName (call : Invocation) : Except Error String :=
  match call.rawParam? 0 with
  | some name => .ok name
  | none => .error (.render (.missingName call.name))

/-- `define name`: stores the main body as a fragment. -/
def define : Helper where
  run call := do
    let name ← Program.done (fragmentName call)
    request (.define name)

/-- `invoke name`: renders a fragment. -/
def invoke : Helper where
  run call := do
    let name ← Program.done (fragmentName call)
    request (.invoke name)

end Helper

/-- All built-in helpers by name. -/
def Registry.builtin : Registry :=
  [("if", Helper.ifTrue),
    ("unless", Helper.unlessTrue),
    ("with", Helper.withValue),
    ("each", Helper.each),
    ("upper", Helper.onText Text.upper),
    ("lower", Helper.onText Text.lower),
    ("capitalize", Helper.onText Text.capitalize),
    ("capitalize_words", Helper.onText Text.capitalizeWords),
    ("reverse", Helper.onText List.reverse),
    ("inflect", Helper.inflect),
    ("default", Helper.defaultTo),
    ("truncate", Helper.truncate),
    ("format_date", Helper.formatDateHelper),
    ("repeat", Helper.repeated),
    ("define", Helper.define),
    ("invoke", Helper.invoke)]

end Stencil
