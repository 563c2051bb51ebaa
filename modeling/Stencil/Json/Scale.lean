import Stencil.Number.Numeral

/-!
# The numbers that JSON texts mean

A written number is a whole number of 64 bits or a double. A double is computed from the
leading digits that fit into 64 bits, scaled by a power of ten with the operations of
doubles; the result can therefore differ in its last bit from the nearest double.

## Main definitions

* `Json.Quantity` - a whole number of 64 bits or a double
* `Json.quantity?` - what a written number means; `none` if it is too large
-/

namespace Stencil.Json

open Number

/-- What a written number means: a whole number from 0 below `2 ^ 64`, one from `-2 ^ 63`
below 0, or a double. -/
inductive Quantity where
  | natural (n : Nat)
  | negative (n : Int)
  | double (x : Float)

/-- Takes up digits into a number as long as it stays below `2 ^ 64`; with the digits that
are left. -/
def absorb : (n : Nat) → List Char → Nat × List Char
  | n, [] => (n, [])
  | n, c :: ds =>
    if 10 * n + digitValue c < Nat.pow 2 64 then absorb (10 * n + digitValue c) ds else (n, c :: ds)

/-- A power of ten as a double. -/
def powerOfTen (k : Nat) : Float :=
  ofRatio false (Nat.pow 10 k) 1

/-- The double `n * 10 ^ e`, computed by one multiplication or by up to two divisions; `none`
if it is too large. -/
def scaled? (n : Nat) (e : Int) : Option Float :=
  let x := ofRatio false n 1
  if n = 0 then some x
  else if 308 < e then none
  else if 0 ≤ e then
    let y := x * powerOfTen e.toNat
    match parts y with
    | .infinite _ => none
    | _ => some y
  else if -308 ≤ e then some (x / powerOfTen (-e).toNat)
  else if -616 ≤ e then some (x / powerOfTen 308 / powerOfTen (-e - 308).toNat)
  else some (ofRatio false 0 1)

/-- The double of a written number. -/
def double? (n : Numeral) : Option Float :=
  let (head, dropped) := absorb 0 n.whole
  let (all, ignored) := absorb head n.fraction
  let places : Int := (dropped.length : Int) - (n.fraction.length - ignored.length : Nat)
  let magnitude :=
    match n.exponent with
    | none => scaled? all places
    | some (negative, ds) =>
      let written := ofDigits ds
      if Nat.pow 2 31 ≤ written then
        if all ≠ 0 ∧ !negative then none else some (ofRatio false 0 1)
      else scaled? all (places + (if negative then -(written : Int) else written))
  magnitude.map fun x => if n.negative then -x else x

/-- What a written number means. -/
def quantity? (n : Numeral) : Option Quantity :=
  let whole := ofDigits n.whole
  if n.fraction = [] ∧ n.exponent = none ∧ whole < Nat.pow 2 64 then
    if !n.negative then some (.natural whole)
    else if 0 < whole ∧ whole ≤ Nat.pow 2 63 then some (.negative (-whole))
    else some (.double (-ofRatio false whole 1))
  else (double? n).map .double

end Stencil.Json
