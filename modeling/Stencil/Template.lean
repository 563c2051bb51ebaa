import Stencil.Comparison

/-!
# Templates

The tree of a template as it is rendered and stored.

## Main definitions

* `Literal`, `Param` - what a tag passes to a helper
* `Call` - the head that all tags share
* `Branch`, `Node` - the parts of a template
* `Template` - a whole template
* `Template.partialNames` - the names of the partials that it renders

## Design notes

Whether a tag calls a helper or writes a variable depends on the helpers that are known when the
template is rendered. A call therefore keeps its name both as a text and as a path.
-/

namespace Stencil

/-- A constant in a tag. -/
inductive Literal where
  | str (text : String)
  | int (value : Int64)
  | float (value : Float)
  | bool (value : Bool)
  | null

/-- The value of a constant. -/
def Literal.toValue : Literal → Value
  | .str text => .str text
  | .int n => .int n
  | .float x => .float x
  | .bool b => .bool b
  | .null => .null

/-- An argument of a tag. -/
inductive Param where
  | path (path : Path)
  | literal (literal : Literal)
  | comparison (comparison : Comparison)

/-- The head of a tag: its name, the name read as a path, the arguments by position, those by
name, and the line. -/
structure Call where
  name : String
  path : Path
  params : List Param
  hash : List (String × Param)
  line : Nat

/-- Whether a tag has any arguments. -/
def Call.hasArguments (call : Call) : Bool :=
  !call.params.isEmpty || !call.hash.isEmpty

/-- A part of a block: a list of nodes, and the condition under which it counts. -/
structure Branch (ν : Type) where
  condition : Option Param
  body : List ν

/-- The nodes of a template:

* `text` is written as it is, and so is `raw`, the content of a raw block;
* `output` writes a variable or the result of a helper, with or without escaping;
* `inline` is an opening tag without a body;
* `block` has branches: the first is the main body, those behind it come from `elseif`,
  with a condition, and `else`, without one;
* `partialTag` renders another template in its place. -/
inductive Node where
  | text (text : String)
  | output (call : Call) (escaped : Bool)
  | inline (call : Call)
  | block (call : Call) (branches : List (Branch Node))
  | raw (text : String)
  | partialTag (name : String) (context : Option Param) (line : Nat)

mutual

/-- The names of the partials in a node, in the order of their tags. -/
def Node.partialNames : Node → List String
  | .partialTag name _ _ => [name]
  | .block _ branches => branchesPartialNames branches
  | _ => []

/-- The names of the partials in nodes. -/
def nodesPartialNames : List Node → List String
  | [] => []
  | node :: nodes => node.partialNames ++ nodesPartialNames nodes

/-- The names of the partials in branches. -/
def branchesPartialNames : List (Branch Node) → List String
  | [] => []
  | ⟨_, body⟩ :: branches => nodesPartialNames body ++ branchesPartialNames branches

end

/-- A whole template. -/
structure Template where
  nodes : List Node

/-- The names of the partials that a template renders, in the order of their tags. -/
def Template.partialNames (t : Template) : List String :=
  nodesPartialNames t.nodes

end Stencil
