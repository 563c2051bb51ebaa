import Stencil.Template
import Stencil.Token

/-!
# Reading the words of tags

## Main definitions

* `unquote?` - the text between quotation marks
* `Param.parse` - the argument that a word stands for
* `Call.ofTag` - the head of a tag

## Design notes

What a word means is tried in a fixed order: a comparison between backticks, a text in
quotation marks, a truth value or null, an integer, a decimal number, and at last a path.
-/

namespace Stencil

open Text

/-- The text between two equal quotation marks. -/
def unquote? (text : List Char) : Option (List Char) :=
  match text with
  | c :: rest => if c = '\x27' ∨ c = '\x22' then dropLastChar? c rest else none
  | [] => none

/-- The text between two backticks. -/
def unbacktick? (text : List Char) : Option (List Char) :=
  match text with
  | c :: rest => if c = '\x60' then dropLastChar? c rest else none
  | [] => none

/-- The constant that a word without quotation marks writes. -/
def Literal.read? (text : List Char) : Option Literal :=
  if text = ['t', 'r', 'u', 'e'] then some (.bool true)
  else if text = ['f', 'a', 'l', 's', 'e'] then some (.bool false)
  else if text = ['n', 'u', 'l', 'l'] then some .null
  else
    match Number.readInteger? text with
    | some n => some (.int n)
    | none => (Number.Numeral.read? text).map fun n => .float n.toFloat

/-- The argument that a word stands for. -/
def Param.parse (line : Nat) (text : List Char) : Except Error Param :=
  match unbacktick? text with
  | some inner => (Comparison.parse line inner).map .comparison
  | none =>
    match unquote? text with
    | some inner => .ok (.literal (.str (String.ofList inner)))
    | none =>
      match Literal.read? text with
      | some constant => .ok (.literal constant)
      | none => (Path.parse line text).map .path

/-- The head of a tag. -/
def Call.ofTag (line : Nat) (tag : Tag) : Except Error Call := do
  let path ← Path.parse line tag.name.toList
  let params ← tag.args.mapM fun arg => Param.parse line arg.toList
  let hash ← tag.hash.mapM fun (key, value) => do
    let param ← Param.parse line value.toList
    return (key, param)
  return ⟨tag.name, path, params, hash, line⟩

end Stencil
