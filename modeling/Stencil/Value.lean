import Stencil.Calendar.Text
import Stencil.Entries
import Stencil.Number.Decimal
import Stencil.Number.Numeral
import Stencil.Number.Shortest

/-!
# Values

The data that a template is rendered against: scalars, dates, lists, and maps whose
entries keep their order.

## Main definitions

* `Value` - the values
* `Value.text` - the text that stands for a value in the output
* `Value.isTruthy`, `Value.isBlank` - the two tests of conditions and defaults
* `Value.number?` - the numeric view of a value
* `Value.field?` - a field of a map, or an element of a list
-/

namespace Stencil

/-- The data that a template is rendered against. -/
inductive Value where
  | null
  | bool (value : Bool)
  | int (value : Int64)
  | float (value : Float)
  | str (text : String)
  | date (date : Calendar.Date)
  | dateTime (time : Calendar.DateTime)
  | utc (time : Calendar.DateTime)
  | decimal (value : Number.Decimal)
  | list (items : List Value)
  | map (entries : List (String × Value))
  deriving Inhabited

namespace Value

/-- The value of a whole number that is not negative: an integer if it is below `2 ^ 63`, and
the nearest double otherwise. -/
def ofNat (n : Nat) : Value :=
  if n < Nat.pow 2 63 then .int (Int64.ofNat n) else .float (Number.ofRatio false n 1)

mutual

/-- The text that stands for a value in the output. Null and maps have none, and the
elements of a list are separated by commas. -/
def text : Value → String
  | .null => ""
  | .bool b => if b then "true" else "false"
  | .int n => Number.intText n.toInt
  | .float x => Number.text x
  | .str s => s
  | .date d => d.text
  | .dateTime t => t.text
  | .utc t => t.utcText
  | .decimal d => d.text
  | .list items => listText items
  | .map _ => ""

/-- The texts of the elements of a list with commas between them. -/
def listText : List Value → String
  | [] => ""
  | [item] => text item
  | item :: items => text item ++ "," ++ listText items

end

/-- The test of conditions: null, `false`, zeros, and empty texts, lists and maps fail it. -/
def isTruthy : Value → Bool
  | .null => false
  | .bool b => b
  | .int n => n != 0
  | .float x => x != 0
  | .str s => s != ""
  | .date _ => true
  | .dateTime _ => true
  | .utc _ => true
  | .decimal d => !d.isZero
  | .list items => !items.isEmpty
  | .map entries => !entries.isEmpty

/-- The test of defaults: null and empty texts, lists and maps are blank. -/
def isBlank : Value → Bool
  | .null => true
  | .str s => s == ""
  | .list items => items.isEmpty
  | .map entries => entries.isEmpty
  | _ => false

/-- The numeric view of a value. Texts have one if they are numerals. -/
def number? : Value → Option Float
  | .int n => some (Number.ofInt n.toInt)
  | .float x => some x
  | .decimal d => some d.toFloat
  | .str s => (Number.Numeral.read? (Text.trim s.toList)).map Number.Numeral.toFloat
  | _ => none

/-- The text of a text value. -/
def string? : Value → Option String
  | .str s => some s
  | _ => none

/-- A field of a map by its name, or an element of a list by its position in digits. -/
def field? (name : String) : Value → Option Value
  | .map entries => Entries.find? name entries
  | .list items => (Number.readNatural? (Nat.pow 2 64) name.toList).bind (items[·]?)
  | _ => none

/-- Follows a path of fields. -/
def walk? : List String → Value → Option Value
  | [], value => some value
  | name :: names, value => (value.field? name).bind (walk? names)

/-- At most `count` elements of a list or entries of a map, without the first `start`; other
values as they are. -/
def slice (start count : Nat) : Value → Value
  | .list items => .list ((items.drop start).take count)
  | .map entries => .map ((entries.drop start).take count)
  | value => value

end Value

end Stencil
