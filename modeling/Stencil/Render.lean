import Stencil.Cache
import Stencil.Helper.Builtin
import Stencil.Loader

/-!
# Rendering

## Main definitions

* `RenderState` - what changes during a render: scope, fragments, depth and cache
* `Render` - steps that change the state and can fail
* `Render.nested` - renders nodes one level deeper
* `Render.node`, `Render.nodes` - renders a node, and nodes one after another
* `Render.template` - a whole render

## Design notes

A step that fails leaves a state behind, too; frames and levels are left on that way as well.

Bodies of helpers, fragments and partials are rendered one level deeper than what asks for them, and
there are at most `maxDepth` levels. This is also why rendering ends. `Render.nested` runs on a
number of levels that are left, which starts at `maxDepth`; it never runs out before the depth
reaches the limit.
-/

namespace Stencil

/-- The greatest number of bodies, fragments and partials inside of each other. -/
def maxDepth : Nat := 64

/-- What changes during a render: the scope, the fragments by name, the number of bodies that are
being rendered, and the cache. -/
structure RenderState where
  scope : Scope
  fragments : Entries (List Node)
  depth : Nat
  cache : Cache

/-- A step of a render: it can fail, and it changes the state in both cases. -/
def Render (α : Type) := RenderState → Except Error α × RenderState

/-- What stays the same during a render: the helpers, where partials are found, and how
texts are escaped. -/
structure RenderEnv where
  helpers : Registry
  partials : Loader
  escape : String → String

namespace Render

variable {α β : Type}

/-- Goes on with the result of a step; an error ends both. -/
def bind (x : Render α) (f : α → Render β) : Render β := fun st =>
  match x st with
  | (.ok a, st) => f a st
  | (.error e, st) => (.error e, st)

instance : Monad Render where
  pure a := fun st => (.ok a, st)
  bind := bind

/-- A step with the given result. -/
def ofResult (result : Except Error α) : Render α := fun st => (result, st)

/-- A step that fails. -/
def fail (e : Error) : Render α := ofResult (.error e)

/-- A step that looks at the scope. -/
def readScope (f : Scope → α) : Render α := fun st => (.ok (f st.scope), st)

/-- Does a step in a new frame, if one is given, and leaves the frame in any case. -/
def within (frame : Option Frame) (x : Render α) : Render α := fun st =>
  match frame with
  | none => x st
  | some frame =>
    let (result, st) := x { st with scope := st.scope.push frame }
    (result, { st with scope := st.scope.pop })

/-- Does a step one level deeper, unless the limit is reached, and comes back in any case. -/
def deeper (x : Render α) : Render α := fun st =>
  if maxDepth ≤ st.depth then (.error (.render (.nesting maxDepth)), st)
  else
    let (result, st) := x { st with depth := st.depth + 1 }
    (result, { st with depth := st.depth - 1 })

/-- The tree of a text, from the cache if it is there. -/
def compile (source : String) : Render Template := fun st =>
  let (result, cache) := st.cache.compile source
  (result, { st with cache := cache })

/-- Renders nodes one level deeper. -/
abbrev Nested := List Node → Render String

/-- Renders the first branch whose condition holds. A branch without a condition always
counts. -/
def inverse (nested : Nested) : List (Branch Node) → Render String
  | [] => pure ""
  | branch :: branches => do
    let isChosen ← readScope fun scope =>
      match branch.condition with
      | none => true
      | some condition => (scope.resolveParam condition).isTruthy
    if isChosen then nested branch.body else inverse nested branches

/-- The main body of a block. -/
def mainBody : List (Branch Node) → List Node
  | [] => []
  | branch :: _ => branch.body

/-- Stores nodes as a fragment. -/
def define (name : String) (body : List Node) : Render String := fun st =>
  (.ok "", { st with fragments := st.fragments.insert name body })

/-- Renders a fragment; one that is not known has no text. -/
def invoke (nested : Nested) (name : String) : Render String := fun st =>
  match st.fragments.find? name with
  | some body => nested body st
  | none => (.ok "", st)

/-- Does what a helper asks for, given the branches of its tag. -/
def answer (nested : Nested) (branches : List (Branch Node)) : Request → Render String
  | .body frame => within frame (nested (mainBody branches))
  | .inverse frame => within frame (inverse nested branches.tail)
  | .define name => define name (mainBody branches)
  | .invoke name => invoke nested name

/-- Follows the course of action of a helper. -/
def run (answer : Request → Render String) : Program α → Render α
  | .done result => ofResult result
  | .ask request next => fun st =>
    let (result, st) := answer request st
    run answer (next result) st

/-- Calls a helper for a tag with the given branches. -/
def callHelper (nested : Nested) (helper : Helper) (call : Call) (branches : List (Branch Node)) :
    Render String := do
  let invocation ← readScope (call.invocation !branches.isEmpty)
  run (answer nested branches) (helper.run invocation)

/-- Writes a text, escaped or not. -/
def write (env : RenderEnv) (escaped : Bool) (text : String) : String :=
  if escaped then env.escape text else text

/-- Renders an output tag: a call of a helper, or a variable if no helper has the name and there are
no arguments. -/
def output (env : RenderEnv) (nested : Nested) (call : Call) (escaped : Bool) : Render String :=
  match env.helpers.find? call.name with
  | some helper => do
    let text ← callHelper nested helper call []
    return write env escaped text
  | none =>
    if call.hasArguments then fail (.unknownHelper call.name)
    else do
      match ← readScope (·.resolveSliced? call.path) with
      | some value => return write env escaped value.text
      | none => return ""

/-- Renders an opening tag without a body: a call of a helper, or a variable that has a
value. -/
def inline (env : RenderEnv) (nested : Nested) (call : Call) : Render String :=
  match env.helpers.find? call.name with
  | some helper => callHelper nested helper call []
  | none => do
    match ← readScope (·.resolveSliced? call.path) with
    | some value =>
      if call.hasArguments then fail (.unknownHelper call.name)
      else return write env true value.text
    | none => fail (.unknownHelper call.name)

/-- Renders a block: a call of a helper, or a block for the value of a variable. -/
def block (env : RenderEnv) (nested : Nested) (call : Call) (branches : List (Branch Node)) :
    Render String :=
  match env.helpers.find? call.name with
  | some helper => callHelper nested helper call branches
  | none => do
    match ← readScope (·.resolveSliced? call.path) with
    | some value =>
      if call.hasArguments then fail (.unknownHelper call.name)
      else do
        let invocation ← readScope (call.invocation !branches.isEmpty)
        run (answer nested branches) (Helper.variableBlock invocation value)
    | none => fail (.unknownHelper call.name)

/-- Renders a partial, in a frame of its own if it has a context. -/
def partialTag (env : RenderEnv) (nested : Nested) (name : String) (context : Option Param) :
    Render String := do
  let source ← ofResult (env.partials.load name)
  let template ← compile source.source
  let frame ← readScope fun scope =>
    context.map fun param => (⟨scope.resolveParam param, none⟩ : Frame)
  within frame (nested template.nodes)

/-- Renders a node. -/
def node (env : RenderEnv) (nested : Nested) : Node → Render String
  | .text body => pure body
  | .raw body => pure body
  | .output call escaped => output env nested call escaped
  | .inline call => inline env nested call
  | .block call branches => block env nested call branches
  | .partialTag name context _ => partialTag env nested name context

/-- Renders nodes one after another. -/
def nodes (env : RenderEnv) (nested : Nested) : List Node → Render String
  | [] => pure ""
  | first :: rest => do
    let front ← node env nested first
    let back ← nodes env nested rest
    return front ++ back

/-- Renders nodes one level deeper, with the given number of levels left below. -/
def nested (env : RenderEnv) : (levels : Nat) → Nested
  | 0, _ => deeper (fail (.render (.nesting maxDepth)))
  | levels + 1, body => deeper (nodes env (nested env levels) body)

/-- Renders the nodes of a template. -/
def template (env : RenderEnv) (t : Template) : Render String :=
  nodes env (nested env maxDepth) t.nodes

end Render

end Stencil
