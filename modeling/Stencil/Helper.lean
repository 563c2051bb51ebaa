import Stencil.Scope

/-!
# Helpers

A helper is a named function that tags call. It computes a text from its arguments, and it may ask
the renderer to render the body of its tag, to enter a frame for that, or to store and
render fragments.

## Main definitions

* `Request` - what a helper can ask for
* `Program` - a helper's course of action: requests one after another, and a result
* `Invocation` - what a helper gets to see
* `Helper`, `Registry` - helpers, and helpers by name

## Design notes

A helper is data, a tree of requests, and not a function on the state of the renderer. It
therefore cannot reach that state in any other way than by requests. It learns whether a
request has failed and may go on in that case too; the built-in helpers never do.
-/

namespace Stencil

/-- What a helper can ask of the renderer: the main body or the first branch of the others whose
condition holds, in the current frame or in a new one; to store the main body as a fragment; to
render a fragment. -/
inductive Request where
  | body (frame : Option Frame)
  | inverse (frame : Option Frame)
  | define (name : String)
  | invoke (name : String)

/-- A course of action: a result, or a request and what is done with the answer. -/
inductive Program (α : Type) where
  | done (result : Except Error α)
  | ask (request : Request) (next : Except Error String → Program α)

namespace Program

variable {α β : Type}

/-- Goes on with the result of a program; an error ends both. -/
def bind : Program α → (α → Program β) → Program β
  | .done (.ok a), f => f a
  | .done (.error e), _ => .done (.error e)
  | .ask request next, f => .ask request fun answer => bind (next answer) f

instance : Monad Program where
  pure a := .done (.ok a)
  bind := bind

/-- A program that fails. -/
def fail (e : Error) : Program α :=
  .done (.error e)

/-- A program of a single request. -/
def request (r : Request) : Program String :=
  .ask r .done

/-- Renders the main body, in a new frame if one is given. -/
def body (frame : Option Frame) : Program String :=
  request (.body frame)

/-- Renders the first of the other branches whose condition holds, in a new frame if one is
given. -/
def inverse (frame : Option Frame) : Program String :=
  request (.inverse frame)

/-- Renders the main body once for each member of a list, in the frame that the member gives, and
puts the results behind `out`. -/
def bodies (out : String) : List (Option Frame) → Program String
  | [] => pure out
  | frame :: frames => do
    let text ← body frame
    bodies (out ++ text) frames

end Program

/-- What a helper gets to see: its name in the tag, its arguments by position and by name, the
arguments by position as they are written where they are no comparisons, whether the tag has a
body, and the scope. -/
structure Invocation where
  name : String
  params : List Value
  hash : Entries Value
  rawParams : List (Option String)
  isBlock : Bool
  scope : Scope

/-- The argument at a position. -/
def Invocation.param (call : Invocation) (i : Nat) : Except Error Value :=
  match call.params[i]? with
  | some value => .ok value
  | none => .error (.render (.missingArgument call.name (i + 1)))

/-- The argument at a position as it is written. -/
def Invocation.rawParam? (call : Invocation) (i : Nat) : Option String :=
  call.rawParams[i]?.join

/-- A function that tags call. -/
structure Helper where
  run : Invocation → Program String

/-- A helper that needs no more than its arguments. -/
def Helper.ofFunction (f : Invocation → Except Error String) : Helper :=
  ⟨fun call => .done (f call)⟩

/-- Helpers by name. -/
abbrev Registry := Entries Helper

/-- The text of an argument as it is written; comparisons have none. -/
def Param.rawText? : Param → Option String
  | .path p => some p.raw
  | .literal constant => some constant.toValue.text
  | .comparison _ => none

/-- What the helper of a tag gets to see. -/
def Call.invocation (call : Call) (isBlock : Bool) (scope : Scope) : Invocation where
  name := call.name
  params := call.params.map scope.resolveParam
  hash := Entries.ofList (call.hash.map fun (key, param) => (key, scope.resolveParam param))
  rawParams := call.params.map Param.rawText?
  isBlock := isBlock
  scope := scope

end Stencil
