import Stencil.Number.Binary
import Stencil.Number.Digits

/-!
# Scaled decimals

Decimal numbers that keep the number of their places, as prices do: `19.90` stays `19.90`. The
digits without the point form a whole number of at most 96 bits, and at most 28 of them stand
behind the point.

## Main definitions

* `Decimal` - a sign, the digits as a whole number, and the number of places
* `Decimal.read?` - reads a decimal, rounding places that do not fit
* `Decimal.text` - the digits with all places
* `Decimal.toFloat` - the value as a double
-/

namespace Stencil.Number

/-- A decimal number with a fixed number of places. Zero has no sign. -/
structure Decimal where
  negative : Bool
  mantissa : Nat
  scale : Nat
  mantissa_lt : mantissa < Nat.pow 2 96
  scale_le : scale ≤ 28

namespace Decimal

/-- The decimal of the given parts, if they are within the bounds. -/
def ofParts? (negative : Bool) (mantissa scale : Nat) : Option Decimal :=
  if h : mantissa < Nat.pow 2 96 ∧ scale ≤ 28 then
    some ⟨negative && mantissa != 0, mantissa, scale, h.1, h.2⟩
  else none

/-- Ends the reading in front of a character that does not fit: a digit of five and more
rounds the last place up, and a mantissa that thereby grows too large loses a place. -/
def roundAt? (negative : Bool) (mantissa scale : Nat) (pointSeen : Bool) (c : Char) :
    Option Decimal :=
  if Number.isDigit c then
    if digitValue c < 5 then ofParts? negative mantissa scale
    else if mantissa + 1 < Nat.pow 2 96 then ofParts? negative (mantissa + 1) scale
    else if scale = 0 then none
    else ofParts? negative ((mantissa + 5) / 10) (scale - 1)
  else if c = '_' ∨ (c = '.' ∧ pointSeen) then ofParts? negative mantissa scale
  else none

/-- Reads the digits of a decimal. Underscores may stand behind the first digit. -/
def readFrom? (negative : Bool) (mantissa scale : Nat) (pointSeen digitSeen : Bool) :
    List Char → Option Decimal
  | [] => if digitSeen then ofParts? negative mantissa scale else none
  | c :: text =>
    if pointSeen && scale == 28 && digitSeen then roundAt? negative mantissa scale true c
    else if Number.isDigit c then
      let next := 10 * mantissa + digitValue c
      if next < Nat.pow 2 96 then
        readFrom? negative next (if pointSeen then scale + 1 else 0) pointSeen true text
      else if pointSeen then roundAt? negative mantissa scale true c
      else none
    else if c = '.' ∧ !pointSeen then readFrom? negative mantissa scale true digitSeen text
    else if c = '_' ∧ digitSeen then readFrom? negative mantissa scale pointSeen true text
    else none

/-- Reads a decimal: an optional sign, and digits with an optional point. Places that do
not fit are rounded, a half away from zero. -/
def read? : List Char → Option Decimal
  | '-' :: text => readFrom? true 0 0 false false text
  | '+' :: text => readFrom? false 0 0 false false text
  | text => readFrom? false 0 0 false false text

/-- The digits of a decimal with all its places. -/
def text (d : Decimal) : String :=
  let ds := padLeft '0' (d.scale + 1) (digits d.mantissa)
  let whole := ds.take (ds.length - d.scale)
  let places := ds.drop (ds.length - d.scale)
  String.ofList <| (if d.negative then ['-'] else []) ++ whole ++
    (if d.scale = 0 then [] else '.' :: places)

/-- Whether a decimal is zero. -/
def isZero (d : Decimal) : Bool :=
  d.mantissa == 0

/-- The value as a double. With places, the whole part and the rest are converted by
themselves and added, and the sum is rounded to the places of the decimal. -/
def toFloat (d : Decimal) : Float :=
  let whole := ofRatio false (d.mantissa / Nat.pow 10 d.scale) 1
  let rest := d.mantissa % Nat.pow 10 d.scale
  let magnitude :=
    if rest = 0 then whole
    else
      let unit := ofRatio false (Nat.pow 10 d.scale) 1
      let sum := whole + ofRatio false rest 1 / unit
      (sum * unit).round / unit
  if d.negative then -magnitude else magnitude

end Decimal

end Stencil.Number
