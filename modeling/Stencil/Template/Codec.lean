import Stencil.Json.Reader
import Stencil.Json.Record
import Stencil.Template

/-!
# Templates in JSON

The form in which trees are stored: every structure of the tree is a record, and every alternative a
case.

## Main definitions

* `Template.toJson` - the stored form of a tree
* `Template.ofJson?` - the tree of a stored form
* `Template.encode`, `Template.decode?` - the text of the stored form

## Design notes

Doubles are written by a function that is passed in, so that a stored form can also be shown with
its doubles in another writing. Blocks are read with a bound on how many of them are inside of
each other; the depth of the JSON value is such a bound.
-/

namespace Stencil

/-! ### Paths and comparisons -/

namespace Slice

/-- The stored form of a slice. -/
def toJson (s : Slice) : Json :=
  .object [("start", Json.ofNat s.start.toNat), ("len", Json.ofNat s.len.toNat)]

/-- The slice of a stored form. -/
def ofJson? (json : Json) : Option Slice := do
  match ← json.fields? ["start", "len"] with
  | [some start, some len] =>
    return ⟨UInt64.ofNat (← start.toNat?), UInt64.ofNat (← len.toNat?)⟩
  | _ => none

end Slice

namespace Path

/-- The stored form of a path. -/
def toJson (p : Path) : Json :=
  .object
    [("raw", .string p.raw), ("data", .bool p.data), ("depth", Json.ofNat p.depth),
      ("segments", .array (p.segments.map .string)), ("slice", Json.ofOption Slice.toJson p.slice)]

/-- The path of a stored form. -/
def ofJson? (json : Json) : Option Path := do
  match ← json.fields? ["raw", "data", "depth", "segments", "slice"] with
  | [some raw, some data, some depth, some segments, slice] =>
    return {
      raw := ← raw.toString?
      data := ← data.toBool?
      depth := ← depth.toNat?
      segments := ← segments.toList? Json.toString?
      slice := ← Json.toOption? Slice.ofJson? slice }
  | _ => none

end Path

namespace Operand

/-- The stored form of an operand. -/
def toJson : Operand → Json
  | .str text => Json.tagged "Str" (.string text)
  | .number text => Json.tagged "Number" (.string text)
  | .path p => Json.tagged "Path" p.toJson

/-- The operand of a stored form. -/
def ofJson? (json : Json) : Option Operand := do
  match ← json.case? with
  | ("Str", some text) => return .str (← text.toString?)
  | ("Number", some text) => return .number (← text.toString?)
  | ("Path", some p) => return .path (← Path.ofJson? p)
  | _ => none

end Operand

namespace Operator

/-- The name of an operator in stored forms. -/
def caseName : Operator → String
  | .eq => "Eq"
  | .ne => "Ne"
  | .lt => "Lt"
  | .gt => "Gt"
  | .le => "Le"
  | .ge => "Ge"

/-- The stored form of an operator. -/
def toJson (op : Operator) : Json :=
  .string op.caseName

/-- The operator of a stored form. -/
def ofJson? (json : Json) : Option Operator := do
  let (name, content) ← json.case?
  if Json.isUnit content then all.find? (·.caseName = name) else none

end Operator

namespace Comparison

/-- The stored form of a comparison. -/
def toJson (c : Comparison) : Json :=
  .object [("left", c.left.toJson), ("op", c.op.toJson), ("right", c.right.toJson)]

/-- The comparison of a stored form. -/
def ofJson? (json : Json) : Option Comparison := do
  match ← json.fields? ["left", "op", "right"] with
  | [some left, some op, some right] =>
    return ⟨← Operand.ofJson? left, ← Operator.ofJson? op, ← Operand.ofJson? right⟩
  | _ => none

end Comparison

/-! ### Arguments and heads of tags -/

namespace Literal

/-- The stored form of a constant, where `float` is that of a double. -/
def toJson (float : Float → Json) : Literal → Json
  | .str text => Json.tagged "Str" (.string text)
  | .int n => Json.tagged "Int" (Json.ofInt n.toInt)
  | .float x => Json.tagged "Float" (float x)
  | .bool b => Json.tagged "Bool" (.bool b)
  | .null => .string "Null"

/-- The constant of a stored form. -/
def ofJson? (json : Json) : Option Literal := do
  match ← json.case? with
  | ("Str", some text) => return .str (← text.toString?)
  | ("Int", some n) => return .int (← n.toInt64?)
  | ("Float", some x) => return .float (← x.toFloat?)
  | ("Bool", some b) => return .bool (← b.toBool?)
  | ("Null", content) => if Json.isUnit content then some .null else none
  | _ => none

end Literal

namespace Param

/-- The stored form of an argument, where `float` is that of a double. -/
def toJson (float : Float → Json) : Param → Json
  | .path p => Json.tagged "Path" p.toJson
  | .literal constant => Json.tagged "Literal" (constant.toJson float)
  | .comparison c => Json.tagged "Comparison" c.toJson

/-- The argument of a stored form. -/
def ofJson? (json : Json) : Option Param := do
  match ← json.case? with
  | ("Path", some p) => return .path (← Path.ofJson? p)
  | ("Literal", some constant) => return .literal (← Literal.ofJson? constant)
  | ("Comparison", some c) => return .comparison (← Comparison.ofJson? c)
  | _ => none

end Param

namespace Call

/-- The stored form of the head of a tag, where `float` is that of a double. -/
def toJson (float : Float → Json) (call : Call) : Json :=
  .object
    [("name", .string call.name), ("path", call.path.toJson),
      ("params", .array (call.params.map (Param.toJson float))),
      ("hash", .array (call.hash.map fun (key, param) => .array [.string key, param.toJson float])),
      ("line", Json.ofNat call.line)]

/-- A name and an argument. -/
def pairOfJson? : Json → Option (String × Param)
  | .array [key, param] => do return (← key.toString?, ← Param.ofJson? param)
  | _ => none

/-- The head of a tag of a stored form. -/
def ofJson? (json : Json) : Option Call := do
  match ← json.fields? ["name", "path", "params", "hash", "line"] with
  | [some name, some path, some params, some hash, some line] =>
    return {
      name := ← name.toString?
      path := ← Path.ofJson? path
      params := ← params.toList? Param.ofJson?
      hash := ← hash.toList? pairOfJson?
      line := ← line.toNat? }
  | _ => none

end Call

/-! ### Nodes -/

mutual

/-- The stored form of a node, where `float` is that of a double. -/
def Node.toJson (float : Float → Json) : Node → Json
  | .text body => Json.tagged "Text" (.string body)
  | .output call escaped =>
    Json.tagged "Mustache" (.object [("call", call.toJson float), ("escaped", .bool escaped)])
  | .inline call => Json.tagged "Section" (call.toJson float)
  | .block call branches =>
    Json.tagged "Block"
      (.object [("call", call.toJson float), ("branches", .array (branchesToJson float branches))])
  | .raw body => Json.tagged "Raw" (.string body)
  | .partialTag name context line =>
    Json.tagged "Partial"
      (.object
        [("name", .string name), ("context", Json.ofOption (Param.toJson float) context),
          ("line", Json.ofNat line)])

/-- The stored forms of nodes. -/
def nodesToJson (float : Float → Json) : List Node → List Json
  | [] => []
  | node :: nodes => Node.toJson float node :: nodesToJson float nodes

/-- The stored forms of branches. -/
def branchesToJson (float : Float → Json) : List (Branch Node) → List Json
  | [] => []
  | ⟨condition, body⟩ :: branches =>
    .object
        [("condition", Json.ofOption (Param.toJson float) condition),
          ("body", .array (nodesToJson float body))] ::
      branchesToJson float branches

end

namespace Node

/-- The branch of a stored form, where `body` reads a list of nodes. -/
def branchOfJson? (body : Json → Option (List Node)) (json : Json) : Option (Branch Node) := do
  match ← json.fields? ["condition", "body"] with
  | [condition, some nodes] =>
    return ⟨← Json.toOption? Param.ofJson? condition, ← body nodes⟩
  | _ => none

/-- The node of a stored form, where `body` reads a list of nodes. -/
def ofJsonWith? (body : Json → Option (List Node)) (json : Json) : Option Node := do
  match ← json.case? with
  | ("Text", some content) => return .text (← content.toString?)
  | ("Raw", some content) => return .raw (← content.toString?)
  | ("Mustache", some content) =>
    match ← content.fields? ["call", "escaped"] with
    | [some call, some escaped] => return .output (← Call.ofJson? call) (← escaped.toBool?)
    | _ => none
  | ("Section", some call) => return .inline (← Call.ofJson? call)
  | ("Block", some content) =>
    match ← content.fields? ["call", "branches"] with
    | [some call, some branches] =>
      return .block (← Call.ofJson? call) (← branches.toList? (branchOfJson? body))
    | _ => none
  | ("Partial", some content) =>
    match ← content.fields? ["name", "context", "line"] with
    | [some name, context, some line] =>
      return .partialTag (← name.toString?) (← Json.toOption? Param.ofJson? context) (← line.toNat?)
    | _ => none
  | _ => none

/-- The list of nodes of a stored form with at most the given number of blocks inside of each
other. -/
def listOfJson? : (levels : Nat) → Json → Option (List Node)
  | 0, json => json.toList? (ofJsonWith? fun _ => none)
  | levels + 1, json => json.toList? (ofJsonWith? (listOfJson? levels))

end Node

namespace Template

/-- The stored form of a tree, where `float` is that of a double. -/
def toJsonWith (float : Float → Json) (t : Template) : Json :=
  .object [("nodes", .array (nodesToJson float t.nodes))]

/-- The stored form of a tree. -/
def toJson (t : Template) : Json :=
  t.toJsonWith Json.ofFloat

/-- The tree of a stored form. -/
def ofJson? (json : Json) : Option Template := do
  match ← json.fields? ["nodes"] with
  | [some nodes] => return ⟨← Node.listOfJson? json.depth nodes⟩
  | _ => none

/-- The text of the stored form of a tree. -/
def encode (t : Template) : String :=
  t.toJson.text

/-- The tree that a text stores. -/
def decode? (text : String) : Option Template := do
  let json ← Json.readForm? text.toList.length text.toList
  ofJson? json

end Template

end Stencil
