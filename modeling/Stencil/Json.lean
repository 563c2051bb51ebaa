import Stencil.Number.Numeral

/-!
# JSON values

## Main definitions

* `Json` - the values of JSON texts
* `Json.depth` - how deep arrays and objects are nested
* `Json.isPaired` - whether all strings of a value stand for texts

## Design notes

A number is kept as it is written, and an object as the list of its members with all
repetitions: what a number means, and which of two members of one name counts, is decided where a
value is used. Readers of different formats decide differently.

An escape can write half of a surrogate pair without the other half. Such a string is sound in form
but stands for no text. It has a value of its own here, so that a reader can pass over it where the
content does not matter.
-/

namespace Stencil

/-- The values of JSON texts. -/
inductive Json where
  | null
  | bool (value : Bool)
  | number (numeral : Number.Numeral)
  | string (text : String)
  | array (items : List Json)
  | object (members : List (String × Json))
  /-- A string that escapes half of a surrogate pair, or an object with such a name. -/
  | unpaired
  deriving Inhabited

namespace Json

/-- The number of a whole number. -/
def ofInt (n : Int) : Json :=
  .number ⟨n < 0, Number.digits n.natAbs, [], none⟩

/-- The number of a whole number that is not negative. -/
def ofNat (n : Nat) : Json :=
  .number ⟨false, Number.digits n, [], none⟩

/-- The first member of an object with the given name. -/
def member? (name : String) : Json → Option Json
  | .object members => members.lookup name
  | _ => none

mutual

/-- How deep arrays and objects are nested in a value. -/
def depth : Json → Nat
  | .array items => itemsDepth items + 1
  | .object members => membersDepth members + 1
  | _ => 0

/-- How deep the items of an array are nested. -/
def itemsDepth : List Json → Nat
  | [] => 0
  | item :: items => max item.depth (itemsDepth items)

/-- How deep the members of an object are nested. -/
def membersDepth : List (String × Json) → Nat
  | [] => 0
  | (_, value) :: members => max value.depth (membersDepth members)

end

mutual

/-- Whether all strings of a value, the names of members among them, stand for texts. -/
def isPaired : Json → Bool
  | .unpaired => false
  | .array items => itemsPaired items
  | .object members => membersPaired members
  | _ => true

/-- Whether all strings of the items of an array stand for texts. -/
def itemsPaired : List Json → Bool
  | [] => true
  | item :: items => item.isPaired && itemsPaired items

/-- Whether all strings of the members of an object stand for texts. -/
def membersPaired : List (String × Json) → Bool
  | [] => true
  | (_, value) :: members => value.isPaired && membersPaired members

end

end Json

end Stencil
