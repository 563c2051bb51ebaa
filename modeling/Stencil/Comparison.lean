import Stencil.Path

/-!
# Comparisons

The conditions that are written between backticks, such as `count >= 5`: two operands
with an operator between them.

## Main definitions

* `Operator`, `Operand`, `Comparison` - the parts of a comparison
* `Comparison.parse` - reads a comparison

## Design notes

An operand is a text in quotation marks, or a word. A word ends at a blank or at a character of an
operator. What it means is tried in a fixed order: a truth value, null, a numeral, a path.
Truth values count as texts and null as the empty text, since that is how they compare.
-/

namespace Stencil

open Text

/-- The operators of comparisons. -/
inductive Operator where
  | eq
  | ne
  | lt
  | gt
  | le
  | ge
  deriving Repr, DecidableEq

/-- The written form of an operator. -/
def Operator.symbol : Operator → List Char
  | .eq => ['=', '=']
  | .ne => ['!', '=']
  | .lt => ['<']
  | .gt => ['>']
  | .le => ['<', '=']
  | .ge => ['>', '=']

/-- The operators in the order in which they are tried: one that starts with another one comes
before it. -/
def Operator.all : List Operator :=
  [.eq, .ne, .le, .ge, .lt, .gt]

/-- One side of a comparison. A number is kept as it is written. -/
inductive Operand where
  | str (text : String)
  | number (text : String)
  | path (path : Path)
  deriving Repr, DecidableEq

/-- Two operands and an operator. -/
structure Comparison where
  left : Operand
  op : Operator
  right : Operand
  deriving Repr, DecidableEq

namespace Comparison

/-- The characters that end a word. -/
def endsWord (c : Char) : Bool :=
  isBlank c || c = '=' || c = '!' || c = '<' || c = '>'

/-- The operand that a word stands for. -/
def wordOperand (line : Nat) (word : List Char) : Except Error Operand :=
  if word = ['t', 'r', 'u', 'e'] ∨ word = ['f', 'a', 'l', 's', 'e'] then
    .ok (.str (String.ofList word))
  else if word = ['n', 'u', 'l', 'l'] then .ok (.str "")
  else if Number.isNumeric word then .ok (.number (String.ofList word))
  else (Path.parse line word).map .path

/-- An operand in front of a text, behind blanks. -/
def readOperand (line : Nat) (text : List Char) : Except Error (Operand × List Char) :=
  match trimStart text with
  | [] => .error (.parse line .missingOperand)
  | c :: rest =>
    if c = '\x27' ∨ c = '\x22' then
      match splitAtMark? [c] rest with
      | none => .error (.parse line .unterminatedString)
      | some (body, rest) => .ok (.str (String.ofList body), rest)
    else
      let word := (c :: rest).takeWhile fun c => !endsWord c
      if word = [] then .error (.parse line .missingOperand)
      else do
        let operand ← wordOperand line word
        return (operand, (c :: rest).dropWhile fun c => !endsWord c)

/-- An operator in front of a text, behind blanks. -/
def readOperator (line : Nat) (text : List Char) : Except Error (Operator × List Char) :=
  let text := trimStart text
  match Operator.all.findSome? fun op => (dropMark? op.symbol text).map fun rest => (op, rest) with
  | some found => .ok found
  | none => .error (.parse line (.missingOperator (String.ofList text)))

/-- Reads a comparison that fills a text, up to blanks. -/
def parse (line : Nat) (text : List Char) : Except Error Comparison := do
  let (left, rest) ← readOperand line text
  let (op, rest) ← readOperator line rest
  let (right, rest) ← readOperand line rest
  let rest := trim rest
  if rest = [] then return ⟨left, op, right⟩
  else throw (.parse line (.trailing (String.ofList rest) (String.ofList text)))

end Comparison

end Stencil
