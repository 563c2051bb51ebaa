import Stencil.Json
import Stencil.Number.Shortest

/-!
# Writing JSON

Values are written without any blanks. In strings only quotation marks, backslashes and control
characters are escaped, the latter with a letter where JSON has one.

## Main definitions

* `Json.write`, `Json.text` - the text of a value
* `Numeral.ofFloat?` - the number that stands for a finite double

## Design notes

A double is written with the fewest digits that read back. The point is kept, as in `1.0`,
and a power of ten is used only for numbers from `1e16` on and below `1e-5`.
-/

namespace Stencil

open Number

/-- The number that stands for a finite double; infinities and what is no number have
none. -/
def Number.Numeral.ofFloat? (x : Float) : Option Numeral :=
  match parts x with
  | .nan => none
  | .infinite _ => none
  | .finite negative m e =>
    if m = 0 then some ⟨negative, ['0'], ['0'], none⟩
    else
      let (n, k) := shortest .even m e
      let ds := digits n
      let place : Int := ds.length + k
      if 0 ≤ k ∧ place ≤ 16 then
        some ⟨negative, ds ++ List.replicate k.toNat '0', ['0'], none⟩
      else if 0 < place ∧ place ≤ 16 then
        some ⟨negative, ds.take place.toNat, ds.drop place.toNat, none⟩
      else if -5 < place ∧ place ≤ 0 then
        some ⟨negative, ['0'], List.replicate (-place).toNat '0' ++ ds, none⟩
      else
        some ⟨negative, ds.take 1, ds.drop 1, some (place - 1 < 0, digits (place - 1).natAbs)⟩

namespace Json

/-- A hexadecimal digit. -/
def hexDigit (n : Nat) : Char :=
  if n < 10 then Char.ofNat (0x30 + n) else Char.ofNat (0x57 + n)

/-- The written form of a character in a string. -/
def escapeChar (c : Char) : List Char :=
  if c = '\x22' then ['\\', '\x22']
  else if c = '\\' then ['\\', '\\']
  else if c = '\x08' then ['\\', 'b']
  else if c = '\t' then ['\\', 't']
  else if c = '\n' then ['\\', 'n']
  else if c = '\x0c' then ['\\', 'f']
  else if c = '\r' then ['\\', 'r']
  else if c.toNat < 0x20 then
    ['\\', 'u', '0', '0', hexDigit (c.toNat / 16), hexDigit (c.toNat % 16)]
  else [c]

/-- The written form of a string. -/
def writeString (text : String) : List Char :=
  '\x22' :: text.toList.flatMap escapeChar ++ ['\x22']

/-- The written form of a number. -/
def writeNumber (n : Numeral) : List Char :=
  (if n.negative then ['-'] else []) ++ n.whole ++
    (if n.fraction = [] then [] else '.' :: n.fraction) ++
    (match n.exponent with
      | none => []
      | some (negative, ds) => 'e' :: (if negative then '-' :: ds else ds))

/-- The written form of a string that stands for no text: the first half of a surrogate pair. -/
def unpairedText : List Char :=
  ['\x22', '\\', 'u', 'd', '8', '0', '0', '\x22']

mutual

/-- The text of a value in front of another text. -/
def write (rest : List Char) : Json → List Char
  | .null => 'n' :: 'u' :: 'l' :: 'l' :: rest
  | .bool true => 't' :: 'r' :: 'u' :: 'e' :: rest
  | .bool false => 'f' :: 'a' :: 'l' :: 's' :: 'e' :: rest
  | .number n => writeNumber n ++ rest
  | .string text => writeString text ++ rest
  | .array items => '[' :: writeItems (']' :: rest) items
  | .object members => '\x7b' :: writeMembers ('\x7d' :: rest) members
  | .unpaired => unpairedText ++ rest

/-- The items of an array with commas between them, in front of another text. -/
def writeItems (rest : List Char) : List Json → List Char
  | [] => rest
  | [item] => write rest item
  | item :: items => write (',' :: writeItems rest items) item

/-- The members of an object with commas between them, in front of another text. -/
def writeMembers (rest : List Char) : List (String × Json) → List Char
  | [] => rest
  | [(name, value)] => writeString name ++ ':' :: write rest value
  | (name, value) :: members =>
    writeString name ++ ':' :: write (',' :: writeMembers rest members) value

end

/-- The text of a value. -/
def text (json : Json) : String :=
  String.ofList (write [] json)

end Json

end Stencil
