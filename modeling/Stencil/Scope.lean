import Stencil.Template

/-!
# Scopes

The data that is in reach at a place of a template: the whole data at the bottom, and above it the
values that blocks have entered, the innermost one on top.

## Main definitions

* `LoopVars` - the variables of a loop: position, key, and whether it is the first or last turn
* `Frame`, `Scope` - a value that a block has entered, and the stack of these
* `Scope.resolve?` - the value that a path means
* `Scope.holds` - whether a comparison holds
* `Scope.resolveParam` - the value of an argument

## Design notes

The frame of the whole data is a field of its own, so that it is always there and stays at the
bottom. A name is looked up from the innermost frame outwards, and the first frame
that has it decides; a path with steps to an enclosing frame is looked up there and nowhere
else.
-/

namespace Stencil

/-- The variables of one turn of a loop. -/
structure LoopVars where
  index : Value
  key : Option Value
  first : Option Value
  last : Option Value

/-- The variables of turn `index` of `len`. The key of a map entry is always known; the key of a
list element, which is its position, and whether the turn is the first or last one are known
only if data variables are enabled. -/
def LoopVars.iteration (index len : Nat) (mapKey : Option String) (enabled : Bool) : LoopVars where
  index := Value.ofNat index
  key := match mapKey with
    | some key => some (.str key)
    | none => if enabled then some (Value.ofNat index) else none
  first := if enabled then some (.bool (index = 0)) else none
  last := if enabled then some (.bool (index + 1 = len)) else none

/-- The variable of the given name. -/
def LoopVars.get? (vars : LoopVars) (name : String) : Option Value :=
  if name = "index" then some vars.index
  else if name = "key" then vars.key
  else if name = "first" then vars.first
  else if name = "last" then vars.last
  else none

/-- A value that a block has entered, with the variables of the loop if the block is one. -/
structure Frame where
  value : Value
  vars : Option LoopVars

/-- The stack of frames above the whole data, the innermost frame first. -/
structure Scope where
  inner : List Frame
  root : Value
  dataVariables : Bool

namespace Scope

/-- The scope of the whole data. -/
def ofRoot (root : Value) (dataVariables : Bool) : Scope :=
  ⟨[], root, dataVariables⟩

/-- All frames, the innermost one first and that of the whole data last. -/
def frames (s : Scope) : List Frame :=
  s.inner ++ [⟨s.root, none⟩]

/-- The number of frames. -/
def depth (s : Scope) : Nat :=
  s.inner.length + 1

/-- Enters a frame. -/
def push (s : Scope) (frame : Frame) : Scope :=
  { s with inner := frame :: s.inner }

/-- Leaves the innermost frame; that of the whole data is never left. -/
def pop (s : Scope) : Scope :=
  { s with inner := s.inner.tail }

@[simp]
theorem pop_push (s : Scope) (frame : Frame) : (s.push frame).pop = s := rfl

/-- The value of the innermost frame. -/
def current (s : Scope) : Value :=
  match s.inner with
  | [] => s.root
  | frame :: _ => frame.value

/-- The frame a number of steps outwards. -/
def ancestor? (s : Scope) (steps : Nat) : Option Frame :=
  s.frames[steps]?

/-- The value of a data variable: the variable of the loop, or else, while data variables are
disabled, the field whose name starts with the mark of data variables. -/
def resolveData? (s : Scope) (p : Path) : Option Value := do
  let frame ← s.ancestor? p.depth
  match p.segments with
  | [] => none
  | name :: names =>
    match frame.vars.bind (·.get? name) with
    | some value => value.walk? names
    | none =>
      if s.dataVariables then none
      else do
        let value ← frame.value.field? ("@" ++ name)
        value.walk? names

/-- The field whose name starts with the mark of data variables; the variables of loops do not
count. -/
def resolveDataField? (s : Scope) (p : Path) : Option Value := do
  let frame ← s.ancestor? p.depth
  match p.segments with
  | [] => none
  | name :: names => do
    let value ← frame.value.field? ("@" ++ name)
    value.walk? names

/-- The value that a path without a mark means; its slice does not count. -/
def resolveName? (s : Scope) (p : Path) : Option Value :=
  if 0 < p.depth then (s.ancestor? p.depth).bind fun frame => frame.value.walk? p.segments
  else if p.isThis then some s.current
  else
    match p.segments with
    | [] => none
    | name :: names =>
      (s.frames.findSome? fun frame => frame.value.field? name).bind (·.walk? names)

/-- The value that a path means; its slice does not count. -/
def resolve? (s : Scope) (p : Path) : Option Value :=
  if p.data then s.resolveData? p else s.resolveName? p

/-- Takes the slice of a path from a value. -/
def sliced (p : Path) (value : Value) : Value :=
  match p.slice with
  | none => value
  | some slice => slice.apply value

/-- The value that a path means, with its slice. -/
def resolveSliced? (s : Scope) (p : Path) : Option Value :=
  (s.resolve? p).map (sliced p)

/-- The value that the text of a path means, with its slice. -/
def lookup? (s : Scope) (text : String) : Option Value :=
  match Path.parse 0 text.toList with
  | .ok p => s.resolveSliced? p
  | .error _ => none

/-- The value of an operand. Constants count as texts. While data variables are disabled, their
names mean fields only. -/
def operandValue (s : Scope) : Operand → Value
  | .str text => .str text
  | .number text => .str text
  | .path p =>
    let found := if p.data && !s.dataVariables then s.resolveDataField? p else s.resolve? p
    (found.map (sliced p)).getD .null

end Scope

/-- Whether an operator holds between two values. They are compared as numbers if both have a
numeric view; otherwise their texts are compared, which have no order. -/
def Operator.holds (op : Operator) (left right : Value) : Bool :=
  match left.number?, right.number? with
  | some a, some b =>
    match op with
    | .eq => a == b
    | .ne => a != b
    | .lt => a < b
    | .gt => a > b
    | .le => a ≤ b
    | .ge => a ≥ b
  | _, _ =>
    match op with
    | .eq => left.text == right.text
    | .ne => left.text != right.text
    | _ => false

namespace Scope

/-- Whether a comparison holds. -/
def holds (s : Scope) (c : Comparison) : Bool :=
  c.op.holds (s.operandValue c.left) (s.operandValue c.right)

/-- Whether the comparison that a text writes holds. -/
def evaluate (s : Scope) (text : String) : Except Error Bool :=
  (Comparison.parse 1 text.toList).map s.holds

/-- The value of an argument. A path that means nothing counts as null. -/
def resolveParam (s : Scope) : Param → Value
  | .literal literal => literal.toValue
  | .comparison comparison => .bool (s.holds comparison)
  | .path p => (s.resolveSliced? p).getD .null

end Scope

end Stencil
