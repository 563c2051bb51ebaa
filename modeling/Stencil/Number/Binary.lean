/-!
# Binary floating-point formats

A finite number of such a format is a whole number, the *significand*, times a power of two.
This module rounds a quotient of whole numbers to the nearest number of a format, with ties
to the even significand, and takes a double apart and puts it together again.

## Main definitions

* `BinaryFormat` - the number of bits of the significand and the range of exponents
* `BinaryFormat.round` - the nearest number to a quotient
* `ofRatio` - the nearest double to a quotient
* `ofDecimal`, `ofDecimalSingle` - the nearest double, or single, to a decimal number
* `Parts`, `parts` - a double as a sign, a significand and an exponent

## Design notes

The rounding is done in exact arithmetic on `Nat`; the operations of `Float` take no part in
it. That a result is the nearest number is then a statement about `Nat`.
-/

namespace Stencil.Number

/-- A binary floating-point format: significands have at most `precision` bits, and the
power of two of their last bit lies between the two exponents. -/
structure BinaryFormat where
  precision : Nat
  minExponent : Int
  maxExponent : Int

/-- Double precision. -/
def BinaryFormat.double : BinaryFormat := ⟨53, -1074, 971⟩

/-- Single precision. -/
def BinaryFormat.single : BinaryFormat := ⟨24, -149, 104⟩

/-- The quotient `num / den` rounded to a whole number, ties to the even one. -/
def roundHalfEven (num den : Nat) : Nat :=
  let q := num / den
  let twice := 2 * (num % den)
  if twice < den then q
  else if den < twice then q + 1
  else if q % 2 = 0 then q else q + 1

/-- The exponent at which a positive quotient has a significand of `precision` bits. -/
def BinaryFormat.exponentOf (format : BinaryFormat) (num den : Nat) : Int :=
  let k : Int := num.log2 - den.log2
  let reached :=
    if 0 ≤ k then decide (den * Nat.pow 2 k.toNat ≤ num)
    else decide (den ≤ num * Nat.pow 2 (-k).toNat)
  let top := if reached then k else k - 1
  max (top - (format.precision - 1)) format.minExponent

/-- The number of the format nearest to `num / den`, as a significand and an exponent;
`none` if it is too large for the format. -/
def BinaryFormat.round (format : BinaryFormat) (num den : Nat) : Option (Nat × Int) :=
  if num = 0 then some (0, format.minExponent)
  else
    let e := format.exponentOf num den
    let m :=
      if 0 ≤ e then roundHalfEven num (den * Nat.pow 2 e.toNat)
      else roundHalfEven (num * Nat.pow 2 (-e).toNat) den
    let (m, e) :=
      if m = Nat.pow 2 format.precision then (Nat.pow 2 (format.precision - 1), e + 1) else (m, e)
    if format.maxExponent < e then none else some (m, e)

/-- A double as it is stored: the sign, and a finite value, an infinity or no number. -/
inductive Parts where
  | finite (negative : Bool) (significand : Nat) (exponent : Int)
  | infinite (negative : Bool)
  | nan

/-- Takes a double apart. -/
def parts (x : Float) : Parts :=
  let bits := x.toBits.toNat
  let negative := Nat.pow 2 63 ≤ bits
  let biased : Nat := bits / Nat.pow 2 52 % Nat.pow 2 11
  let fraction : Nat := bits % Nat.pow 2 52
  if biased = 2047 then
    if fraction = 0 then .infinite negative else .nan
  else if biased = 0 then .finite negative fraction (-1074)
  else .finite negative (Nat.pow 2 52 + fraction) (biased - 1075)

/-- The bits of a finite double with the given sign, significand and exponent; the exponent
of a significand below `2 ^ 52` is the least one. -/
def finiteBits (negative : Bool) (significand : Nat) (exponent : Int) : Nat :=
  let sign := if negative then Nat.pow 2 63 else 0
  if significand < Nat.pow 2 52 then sign + significand
  else sign + (exponent + 1075).toNat * Nat.pow 2 52 + (significand - Nat.pow 2 52)

/-- The double of the given bits. -/
def ofBits (bits : Nat) : Float :=
  Float.ofBits (UInt64.ofNat bits)

/-- An infinity. -/
def infinity (negative : Bool) : Float :=
  ofBits ((if negative then Nat.pow 2 63 else 0) + 2047 * Nat.pow 2 52)

/-- The value that is no number. -/
def nan : Float :=
  ofBits (2047 * Nat.pow 2 52 + Nat.pow 2 51)

/-- The double nearest to `num / den`, with a sign; an infinity if there is none. -/
def ofRatio (negative : Bool) (num den : Nat) : Float :=
  match BinaryFormat.double.round num den with
  | none => infinity negative
  | some (m, e) => ofBits (finiteBits negative m e)

/-- The double nearest to an integer. -/
def ofInt (n : Int) : Float :=
  ofRatio (decide (n < 0)) n.natAbs 1

/-- A decimal number `digits * 10 ^ exponent` as a quotient. -/
def decimalRatio (digits : Nat) (exponent : Int) : Nat × Nat :=
  if 0 ≤ exponent then (digits * Nat.pow 10 exponent.toNat, 1)
  else (digits, Nat.pow 10 (-exponent).toNat)

/-- The double nearest to `digits * 10 ^ exponent`. `length` is a bound on the number of
digits; it decides without large powers where the answer is zero or an infinity. -/
def ofDecimal (negative : Bool) (digits length : Nat) (exponent : Int) : Float :=
  if digits = 0 ∨ exponent + length < -400 then ofRatio negative 0 1
  else if 400 < exponent then infinity negative
  else
    let (num, den) := decimalRatio digits exponent
    ofRatio negative num den

/-- The single nearest to `digits * 10 ^ exponent`, as a double. -/
def ofDecimalSingle (negative : Bool) (digits length : Nat) (exponent : Int) : Float :=
  if digits = 0 ∨ exponent + length < -400 then ofRatio negative 0 1
  else if 400 < exponent then infinity negative
  else
    let (num, den) := decimalRatio digits exponent
    match BinaryFormat.single.round num den with
    | none => infinity negative
    | some (m, e) =>
      if 0 ≤ e then ofRatio negative (m * Nat.pow 2 e.toNat) 1
      else ofRatio negative m (Nat.pow 2 (-e).toNat)

/-- The whole part of a double that is not negative; the greatest 64-bit number if it is
larger, and zero for what is no number. -/
def truncate (x : Float) : Nat :=
  match parts x with
  | .nan => 0
  | .infinite negative => if negative then 0 else Nat.pow 2 64 - 1
  | .finite negative m e =>
    if negative then 0
    else if 64 < e then (if m = 0 then 0 else Nat.pow 2 64 - 1)
    else
      let whole := if 0 ≤ e then m * Nat.pow 2 e.toNat else m / Nat.pow 2 (-e).toNat
      min whole (Nat.pow 2 64 - 1)

end Stencil.Number
