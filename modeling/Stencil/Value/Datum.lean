import Stencil.Error
import Stencil.Json.Scale
import Stencil.Json
import Stencil.Value

/-!
# Data of programs

The shapes in which a program can hand over its data: scalars of all widths, options,
variants, sequences and records. Each becomes a value: wrappers disappear, every kind of
sequence becomes a list, and every kind of record becomes a map.

## Main definitions

* `Datum` - the shapes of data
* `Datum.toValue` - the value of a datum
* `Datum.ofJson?` - the datum of a JSON value

## Design notes

A map is handed over as a run of keys and values, where a value belongs to the latest key before
it that has not been used. Entries of one name share one place, and the last one counts.
-/

namespace Stencil

/-- The kinds of sequences. -/
inductive SequenceKind where
  | sequence
  | tuple
  | tupleStruct
  | tupleVariant (variant : String)
  deriving Repr, DecidableEq

/-- The kinds of records with named fields. -/
inductive RecordKind where
  | struct
  | structVariant (variant : String)
  deriving Repr, DecidableEq

/-- What a step of handing over a map brings. -/
inductive MapRole where
  | key
  | value
  deriving Repr, DecidableEq

/-- The shapes in which a program can hand over its data. Integers of at most 64 bits with a
sign are one shape, whatever their width; so are those without a sign. -/
inductive Datum where
  | bool (value : Bool)
  | int (value : Int64)
  | natural (value : UInt64)
  | wide (type : String)
  | float (value : Float)
  | char (value : Char)
  | str (text : String)
  | bytes (values : List UInt8)
  | absent
  | present (datum : Datum)
  | unit
  | unitStruct
  | unitVariant (variant : String)
  | newtypeStruct (datum : Datum)
  | newtypeVariant (variant : String) (datum : Datum)
  | sequence (kind : SequenceKind) (items : List Datum)
  | record (kind : RecordKind) (fields : List (String × Datum))
  | map (steps : List (MapRole × Datum))

namespace Datum

/-- The name under which a value is entered into a map: the text of a scalar. -/
def keyText : Value → Except Error String
  | .str text => .ok text
  | .bool b => .ok (Value.bool b).text
  | .int n => .ok (Value.int n).text
  | .float x => .ok (Value.float x).text
  | _ => .error (.data .compositeKey)

mutual

/-- The value of a datum. -/
def toValue : Datum → Except Error Value
  | .bool b => .ok (.bool b)
  | .int n => .ok (.int n)
  | .natural n => .ok (Value.ofNat n.toNat)
  | .wide type => .error (.data (.unsupported type))
  | .float x => .ok (.float x)
  | .char c => .ok (.str (String.ofList [c]))
  | .str text => .ok (.str text)
  | .bytes values => .ok (.list (values.map fun b => Value.ofNat b.toNat))
  | .absent => .ok .null
  | .present datum => toValue datum
  | .unit => .ok .null
  | .unitStruct => .ok .null
  | .unitVariant variant => .ok (.str variant)
  | .newtypeStruct datum => toValue datum
  | .newtypeVariant _ datum => toValue datum
  | .sequence _ items => (itemValues items).map .list
  | .record _ fields => (fieldValues [] fields).map .map
  | .map steps => (mapValues [] none steps).map .map

/-- The values of the items of a sequence. -/
def itemValues : List Datum → Except Error (List Value)
  | [] => .ok []
  | item :: items => do
    let value ← toValue item
    let values ← itemValues items
    return value :: values

/-- The entries of a record, behind the entries that are there. -/
def fieldValues (entries : Entries Value) : List (String × Datum) → Except Error (Entries Value)
  | [] => .ok entries
  | (name, field) :: fields => do
    let value ← toValue field
    fieldValues (entries.insert name value) fields

/-- The entries of a map, behind the entries that are there, with the key that waits for a
value. -/
def mapValues (entries : Entries Value) (pending : Option String) :
    List (MapRole × Datum) → Except Error (Entries Value)
  | [] => .ok entries
  | (.key, datum) :: steps => do
    let value ← toValue datum
    let name ← keyText value
    mapValues entries (some name) steps
  | (.value, datum) :: steps => do
    let value ← toValue datum
    match pending with
    | none => .error (.data .missingKey)
    | some name => mapValues (entries.insert name value) none steps

end

/-- The datum of a number; `none` if the number is too large for a double. -/
def ofNumeral? (n : Number.Numeral) : Option Datum :=
  (Json.quantity? n).map fun
    | .natural n => .natural (UInt64.ofNat n)
    | .negative n => .int (Int64.ofInt n)
    | .double x => .float x

mutual

/-- The datum of a JSON value; `none` if it holds a number that is too large for a double, or a
string that stands for no text. -/
def ofJson? : Json → Option Datum
  | .null => some .unit
  | .bool b => some (.bool b)
  | .number n => ofNumeral? n
  | .string text => some (.str text)
  | .array items => (ofItems? items).map (.sequence .sequence)
  | .object members => (ofMembers? members).map .map
  | .unpaired => none

/-- The data of the items of an array. -/
def ofItems? : List Json → Option (List Datum)
  | [] => some []
  | item :: items => do
    let datum ← ofJson? item
    let data ← ofItems? items
    return datum :: data

/-- The members of an object as keys and values in turn. -/
def ofMembers? : List (String × Json) → Option (List (MapRole × Datum))
  | [] => some []
  | (name, value) :: members => do
    let datum ← ofJson? value
    let steps ← ofMembers? members
    return (.key, .str name) :: (.value, datum) :: steps

end

end Datum

/-- The value of a JSON value; `none` if it holds a number that is too large for a double, or a
string that stands for no text. -/
def Value.ofJson? (json : Json) : Option Value :=
  (Datum.ofJson? json).bind fun datum => datum.toValue.toOption

end Stencil
