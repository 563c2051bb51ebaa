import Stencil.Number.Binary
import Stencil.Number.Digits
import Stencil.Text.Blank

/-!
# Numerals

The numbers that are written in templates and in data texts: an optional sign, digits with
an optional point among, before or behind them, and an optional power of ten.

## Main definitions

* `Numeral` - the pieces of a written number
* `Numeral.read?` - reads a numeral that fills a text
* `isNumeric` - whether a text is a numeral, up to blanks at its ends
* `Numeral.toFloat` - the nearest double to the number that a numeral writes
-/

namespace Stencil.Number

/-- The pieces of a written number: a sign, the digits in front of the point and behind it,
and the digits of the power of ten with its sign. -/
structure Numeral where
  negative : Bool
  whole : List Char
  fraction : List Char
  exponent : Option (Bool × List Char)
  deriving Repr, DecidableEq

/-- An optional sign, and whether it is a minus sign. -/
def takeSign : List Char → Bool × List Char
  | '+' :: rest => (false, rest)
  | '-' :: rest => (true, rest)
  | text => (false, text)

/-- The digits that follow a point in front of a text, if there is a point. -/
def takeFraction : List Char → List Char × List Char
  | '.' :: rest => (rest.takeWhile isDigit, rest.dropWhile isDigit)
  | text => ([], text)

/-- The power of ten that fills a text: `e` or `E`, an optional sign, and digits. The
empty text stands for no power of ten. -/
def readExponent? : List Char → Option (Option (Bool × List Char))
  | [] => some none
  | c :: rest =>
    if c = 'e' ∨ c = 'E' then
      let (negative, ds) := takeSign rest
      if isDigits ds then some (some (negative, ds)) else none
    else none

/-- Reads a numeral that fills a text. At least one digit is needed in front of the point or
behind it. -/
def Numeral.read? (text : List Char) : Option Numeral :=
  let (negative, rest) := takeSign text
  let whole := rest.takeWhile isDigit
  let (fraction, rest) := takeFraction (rest.dropWhile isDigit)
  if whole.isEmpty && fraction.isEmpty then none
  else (readExponent? rest).map fun exponent => ⟨negative, whole, fraction, exponent⟩

/-- Whether a text is a numeral, up to blanks at its ends. -/
def isNumeric (text : List Char) : Bool :=
  (Numeral.read? (Text.trim text)).isSome

/-- The power of ten of the last digit of a numeral. -/
def Numeral.power (n : Numeral) : Int :=
  let written : Int := match n.exponent with
    | none => 0
    | some (negative, ds) => if negative then -ofDigits ds else ofDigits ds
  written - n.fraction.length

/-- The double nearest to the number that a numeral writes. -/
def Numeral.toFloat (n : Numeral) : Float :=
  ofDecimal n.negative (ofDigits (n.whole ++ n.fraction)) (n.whole ++ n.fraction).length n.power

/-- The single nearest to the number that a numeral writes, as a double. -/
def Numeral.toSingle (n : Numeral) : Float :=
  ofDecimalSingle n.negative (ofDigits (n.whole ++ n.fraction)) (n.whole ++ n.fraction).length
    n.power

end Stencil.Number
