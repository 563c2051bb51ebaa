import Stencil.Json.Scale
import Stencil.Json.Writer

/-!
# Records and cases in JSON

How values of other types are laid out in JSON. A record is an object with a member for each
field, and a case of a type an object with a single member, named for the case; a case without
content is its name as a string.

## Main definitions

* `Json.tagged`, `Json.case?` - writes and reads a case
* `Json.fields?` - the fields of a record
* `Json.toNat?`, `Json.toInt64?`, `Json.toFloat?` - reads a number within its bounds
* `Json.toList?`, `Json.toOption?` - reads a list, and a field that can be left out

## Design notes

The readers take a little more than the writers make: a record can also be an array of its fields
in their order, an object can have further members, optional fields can be left out, and a whole
number can stand for a double. Of a further member only the name has to stand for a text, not the
strings inside of its value. A field that comes twice is refused. A double that is not finite
has no number in JSON; it is written as null and not read back.
-/

namespace Stencil

namespace Json

/-- The JSON value of an optional one. -/
def ofOption {α : Type} (f : α → Json) : Option α → Json
  | none => .null
  | some a => f a

/-- A case of a type with its content. -/
def tagged (name : String) (content : Json) : Json :=
  .object [(name, content)]

/-- The number of a double, or null. -/
def ofFloat (x : Float) : Json :=
  ofOption .number (Number.Numeral.ofFloat? x)

/-- The fields of a record, each of them at most once. -/
def fields? (names : List String) : Json → Option (List (Option Json))
  | .object members =>
    names.mapM fun name =>
      match members.filter (·.1 = name) with
      | [] => some none
      | [(_, value)] => some (some value)
      | _ => none
  | .array items => if items.length = names.length then some (items.map some) else none
  | _ => none

/-- The name and the content of a case. -/
def case? : Json → Option (String × Option Json)
  | .string name => some (name, none)
  | .object [(name, content)] => some (name, some content)
  | _ => none

/-- The content of a string. -/
def toString? : Json → Option String
  | .string text => some text
  | _ => none

/-- A truth value. -/
def toBool? : Json → Option Bool
  | .bool b => some b
  | _ => none

/-- A whole number of 64 bits that is not negative. -/
def toNat? : Json → Option Nat
  | .number n =>
    match quantity? n with
    | some (.natural n) => some n
    | _ => none
  | _ => none

/-- A whole number of 64 bits with a sign. -/
def toInt64? : Json → Option Int64
  | .number n =>
    match quantity? n with
    | some (.natural n) => if n < Nat.pow 2 63 then some (Int64.ofNat n) else none
    | some (.negative n) => some (Int64.ofInt n)
    | _ => none
  | _ => none

/-- A double, which a whole number can stand for. -/
def toFloat? : Json → Option Float
  | .number n =>
    match quantity? n with
    | some (.natural n) => some (Number.ofRatio false n 1)
    | some (.negative n) => some (Number.ofInt n)
    | some (.double x) => some x
    | none => none
  | _ => none

/-- The items of an array, each of them read. -/
def toList? {α : Type} (item : Json → Option α) : Json → Option (List α)
  | .array items => items.mapM item
  | _ => none

/-- An optional value: null, or a field that is left out, is none. -/
def toOption? {α : Type} (item : Json → Option α) : Option Json → Option (Option α)
  | none => some none
  | some .null => some none
  | some json => (item json).map some

/-- Content that stands for nothing. -/
def isUnit : Option Json → Bool
  | none => true
  | some .null => true
  | _ => false

end Json

end Stencil
