import Stencil.Error
import Stencil.Number.Digits
import Stencil.Text.Blank
import Stencil.Text.Search
import Stencil.Value

/-!
# Paths

A path names a value in the data: `name`, `user.name`, `../total`, `@index`, `items[1:2]`.

## Main definitions

* `Slice` - a range of the elements of a list or map
* `Path` - the parts of a path
* `Path.parse` - reads a path
* `Path.spell` - the text of a path in its full form

## Design notes

The segments of a path are separated by points or slashes, which mean the same. The word `this`
and a point stand for the current value; in front of segments they change nothing.
-/

namespace Stencil

open Text

/-- A range: `start` elements are passed over, and at most `len` are kept. -/
structure Slice where
  start : UInt64
  len : UInt64
  deriving Repr, DecidableEq

/-- The elements of a list or map in the range; other values as they are. -/
def Slice.apply (s : Slice) (value : Value) : Value :=
  value.slice s.start.toNat s.len.toNat

/-- The text of a slice. -/
def Slice.spell (s : Slice) : List Char :=
  '[' :: Number.digits s.start.toNat ++ ':' :: Number.digits s.len.toNat ++ [']']

/-- The parts of a path. Steps to enclosing scopes come first, and the segments are followed
from there; without any, the path means the whole value of the scope. -/
structure Path where
  raw : String
  data : Bool
  depth : Nat
  segments : List String
  slice : Option Slice
  deriving Repr, DecidableEq

namespace Path

/-- Whether a path means the current value itself. -/
def isThis (p : Path) : Bool :=
  !p.data && p.depth == 0 && p.segments.isEmpty

/-- The steps to enclosing scopes in front of a text, and the text behind them. -/
def takeSteps : List Char → Nat × List Char
  | '.' :: '.' :: '/' :: rest => ((takeSteps rest).1 + 1, (takeSteps rest).2)
  | ['.', '.'] => (1, [])
  | text => (0, text)

/-- The range between the brackets of a slice. -/
def readSlice? (inner : List Char) : Option Slice := do
  let (start, len) ← splitAtMark? [':'] inner
  if Number.isDigits start && Number.isDigits len then do
    let start ← Number.readNatural? (Nat.pow 2 64) start
    let len ← Number.readNatural? (Nat.pow 2 64) len
    return ⟨UInt64.ofNat start, UInt64.ofNat len⟩
  else none

/-- Takes the slice off the end of a text, if it has one. -/
def takeSlice (text : List Char) : Except PathFault (List Char × Option Slice) :=
  match splitAtMark? ['['] text with
  | none => if ']' ∈ text then .error .strayBracket else .ok (text, none)
  | some (front, rest) =>
    match dropLastChar? ']' rest with
    | none => .error .openSlice
    | some inner =>
      match readSlice? inner with
      | none => .error .malformedSlice
      | some slice => .ok (front, some slice)

/-- A text without the word for the current value in front of it. -/
def dropThis (text : List Char) : List Char :=
  if text = ['t', 'h', 'i', 's'] ∨ text = ['.'] then []
  else
    ((dropMark? ['t', 'h', 'i', 's', '.'] text)
      <|> (dropMark? ['t', 'h', 'i', 's', '/'] text)
      <|> (dropMark? ['.', '/'] text)).getD text

/-- The characters that no segment holds, beside blanks and the two separators. -/
def reserved : List Char :=
  ['\x27', '\x22', '\x60', '=', '<', '>', '!', '(', ')', '\x7b', '\x7d', '[', ']']

/-- Checks the segments one after another. -/
def checkSegments : List (List Char) → Except PathFault Unit
  | [] => .ok ()
  | segment :: segments =>
    if segment = [] then .error .emptySegment
    else if segment.any fun c => isBlank c || c ∈ reserved then .error .unexpectedCharacter
    else checkSegments segments

/-- The segments that a text writes. -/
def readSegments (text : List Char) : Except PathFault (List String) := do
  let pieces := if text = [] then [] else splitOn (fun c => c = '.' || c = '/') text
  checkSegments pieces
  return pieces.map String.ofList

/-- Reads a path without blanks around it. -/
def read (text : List Char) : Except PathFault Path := do
  if text = [] then throw .empty
  let (data, rest) := match text with
    | '@' :: rest => (true, rest)
    | _ => (false, text)
  let (depth, rest) := takeSteps rest
  let (rest, slice) ← takeSlice rest
  let segments ← readSegments (dropThis rest)
  if data && segments.isEmpty then throw .namelessVariable
  return ⟨String.ofList text, data, depth, segments, slice⟩

/-- Reads a path; blanks around it are passed over. -/
def parse (line : Nat) (text : List Char) : Except Error Path :=
  match read (trim text) with
  | .ok path => .ok path
  | .error fault => .error (.parse line (.path (String.ofList text) fault))

/-- The text of a path in its full form: the mark of a data variable, the steps to enclosing
scopes, `this`, each segment behind the separator that `separators` gives for it, or else
a point, and the slice. -/
def spell (p : Path) (separators : List Char) : List Char :=
  (if p.data then ['@'] else []) ++ (List.replicate p.depth ['.', '.', '/']).flatten ++
    ['t', 'h', 'i', 's'] ++
    (p.segments.zipIdx.flatMap fun (segment, i) => separators.getD i '.' :: segment.toList) ++
    (match p.slice with
      | none => []
      | some s => s.spell)

end Path

end Stencil
