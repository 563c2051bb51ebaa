/-!
# Digits

Decimal digits as characters, and whole numbers written with them. Only the ten digits
of ASCII count as digits here.

## Main definitions

* `isDigit` - the characters `0` to `9`
* `ofDigits` - the number that a list of digits writes
* `digits` - the shortest list of digits that writes a number
* `readNatural?`, `readInteger?` - whole numbers below a bound, with an optional sign
* `padLeft` - a text filled up to a width
-/

namespace Stencil.Number

/-- The digits of ASCII. -/
def isDigit (c : Char) : Bool :=
  '0' ≤ c && c ≤ '9'

/-- The value of a digit. -/
def digitValue (c : Char) : Nat :=
  c.toNat - '0'.toNat

/-- The digit of a value below ten. -/
def digitChar (n : Nat) : Char :=
  Char.ofNat ('0'.toNat + n)

/-- The number that a list of digits writes, with the most significant digit first. -/
def ofDigits (text : List Char) : Nat :=
  text.foldl (fun n c => 10 * n + digitValue c) 0

/-- The shortest list of digits that writes a number. -/
def digits (n : Nat) : List Char :=
  if n < 10 then [digitChar n] else digits (n / 10) ++ [digitChar (n % 10)]

/-- The text of a whole number. -/
def natText (n : Nat) : String :=
  String.ofList (digits n)

/-- The text of an integer, with a minus sign if it is negative. -/
def intText (n : Int) : String :=
  if n < 0 then "-" ++ natText n.natAbs else natText n.natAbs

/-- Whether a text is made of digits and has at least one. -/
def isDigits (text : List Char) : Bool :=
  !text.isEmpty && text.all isDigit

/-- Reads a number below `bound`: an optional plus sign and digits. -/
def readNatural? (bound : Nat) (text : List Char) : Option Nat :=
  let body := match text with
    | '+' :: rest => rest
    | _ => text
  if isDigits body && ofDigits body < bound then some (ofDigits body) else none

/-- Reads a 64-bit signed integer: an optional sign and digits. -/
def readInteger? (text : List Char) : Option Int64 :=
  match text with
  | '-' :: body =>
    if isDigits body && ofDigits body ≤ Nat.pow 2 63 then some (Int64.ofInt (-ofDigits body))
    else none
  | _ => (readNatural? (Nat.pow 2 63) text).map fun n => Int64.ofInt n

/-- Fills a text up to a width with copies of a character in front. -/
def padLeft (fill : Char) (width : Nat) (text : List Char) : List Char :=
  List.replicate (width - text.length) fill ++ text

end Stencil.Number
