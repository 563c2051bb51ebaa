import Stencil.Number.Binary
import Stencil.Number.Digits

/-!
# The shortest decimal text of a double

Among the decimal numbers that read back as a given double, those with the fewest digits
are considered, and of these the one nearest to the double is taken. The text is
positional at every magnitude: there is no exponent, and no point behind a whole number.

## Main definitions

* `Interval` - the decimal numbers that read back as a given double
* `Tie` - which of two equally near candidates is taken
* `shortest` - the digits of the text, and the power of ten of the last one
* `text` - the text

## Design notes

Two candidates can be equally near. In the text of a double the larger one is taken then; in
data texts it is the one with an even last digit. The search runs over the grids of decimal numbers
with 1, 2, ..., 17 digits, on each of which the two neighbours of the value are tried; a grid with
17 digits always has a hit.
-/

namespace Stencil.Number

/-- A positive value `mid / den` and the limits `low / den` and `high / den` of the numbers
that are rounded to it; `closed` tells whether the limits are among them. -/
structure Interval where
  low : Nat
  mid : Nat
  high : Nat
  den : Nat
  closed : Bool

/-- The numbers that are rounded to a finite double. Below a power of two the doubles lie
twice as dense as above. -/
def Interval.ofDouble (significand : Nat) (exponent : Int) : Interval :=
  let below := if significand = Nat.pow 2 52 ∧ -1074 < exponent then 1 else 2
  let (up, down) :=
    if 2 ≤ exponent then (Nat.pow 2 (exponent - 2).toNat, 1)
    else (1, Nat.pow 2 (2 - exponent).toNat)
  { low := (4 * significand - below) * up
    mid := 4 * significand * up
    high := (4 * significand + 2) * up
    den := down
    closed := significand % 2 = 0 }

/-- Whether `n * 10 ^ k` lies in the interval. -/
def Interval.has (i : Interval) (n : Nat) (k : Int) : Bool :=
  let (num, den) := decimalRatio n k
  let low := i.low * den
  let high := i.high * den
  let point := num * i.den
  if i.closed then low ≤ point && point ≤ high else low < point && point < high

/-- The power of ten of the first digit of a positive quotient. -/
def leadingPower (num den : Nat) : Int :=
  if den ≤ num then ((digits (num / den)).length : Int) - 1
  else
    let k := (digits (den / num)).length
    if den ≤ num * Nat.pow 10 (k - 1) then 1 - (k : Int) else -(k : Int)

/-- Which of two equally near candidates is taken: the larger one, or the one whose last digit is
even. -/
inductive Tie where
  | up
  | even
  deriving Repr, DecidableEq

/-- Whether the lower one of the candidates `n` and `n + 1` is taken for a value `n + part / den`
between them. -/
def Tie.takesLower (tie : Tie) (n part den : Nat) : Bool :=
  2 * part < den || (2 * part == den && tie == .even && n % 2 == 0)

/-- The multiple of `10 ^ k` nearest to the value among its two neighbours, as far as they
lie in the interval. -/
def Interval.onGrid? (i : Interval) (tie : Tie) (k : Int) : Option Nat :=
  let (num, den) :=
    if 0 ≤ k then (i.mid, i.den * Nat.pow 10 k.toNat) else (i.mid * Nat.pow 10 (-k).toNat, i.den)
  let n := num / den
  let lower := i.has n k
  let upper := i.has (n + 1) k
  if lower && upper then some (if tie.takesLower n (num % den) den then n else n + 1)
  else if lower then some n
  else if upper then some (n + 1)
  else none

/-- Moves the zeros at the end of a number into the exponent. -/
def stripZeros : (steps n : Nat) → Int → Nat × Int
  | 0, n, k => (n, k)
  | steps + 1, n, k => if n % 10 = 0 then stripZeros steps (n / 10) (k + 1) else (n, k)

/-- The fewest digits that read back as a positive double, and the power of ten of the
last one. -/
def shortest (tie : Tie) (significand : Nat) (exponent : Int) : Nat × Int :=
  let i := Interval.ofDouble significand exponent
  let top := leadingPower i.mid i.den
  let hit := (List.range 17).findSome? fun (count : Nat) =>
    let k : Int := top - count
    (i.onGrid? tie k).map fun n => (n, k)
  match hit with
  | some (n, k) => stripZeros 20 n k
  | none => (significand, exponent)

/-- A number `n * 10 ^ k` in positional writing. -/
def positional (n : Nat) (k : Int) : List Char :=
  let ds := digits n
  if 0 ≤ k then ds ++ List.replicate k.toNat '0'
  else
    let places := (-k).toNat
    if places < ds.length then
      ds.take (ds.length - places) ++ '.' :: ds.drop (ds.length - places)
    else '0' :: '.' :: padLeft '0' places ds

/-- The text of a double: the shortest decimal number that reads back, in positional
writing. -/
def text (x : Float) : String :=
  match parts x with
  | .nan => "NaN"
  | .infinite negative => if negative then "-inf" else "inf"
  | .finite negative m e =>
    let sign := if negative then ['-'] else []
    let body :=
      if m = 0 then ['0']
      else
        let (n, k) := shortest .up m e
        positional n k
    String.ofList (sign ++ body)

end Stencil.Number
