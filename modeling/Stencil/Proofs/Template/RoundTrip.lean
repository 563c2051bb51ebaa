import Stencil.Proofs.Json.RoundTrip
import Stencil.Template.Codec

/-!
# Stored templates

The stored form of a tree is read back as the tree, if its doubles survive being written in JSON and
its counts have 64 bits.

## Main definitions

* `Json.KeepsFloat` - the doubles that JSON keeps
* `Template.IsStorable` - the trees of such doubles and of counts of 64 bits

Main statements: `Template.ofJson?_toJson`, `Template.decode?_encode`.
-/

namespace Stencil

open Number

namespace Json

/-! ### Records, lists and optional fields -/

theorem toList?_map {α : Type} {f : α → Json} {g : Json → Option α} {items : List α}
    (h : ∀ a ∈ items, g (f a) = some a) : (array (items.map f)).toList? g = some items := by
  show (items.map f).mapM g = some items
  induction items with
  | nil => rfl
  | cons a items ih =>
    have ha : g (f a) = some a := h a (.head _)
    have hitems := ih fun b hb => h b (.tail _ hb)
    simp [ha, hitems]

theorem toOption?_ofOption {α : Type} {f : α → Json} {g : Json → Option α} {a? : Option α}
    (hnull : ∀ a, f a ≠ .null) (h : ∀ a ∈ a?, g (f a) = some a) :
    toOption? g (some (ofOption f a?)) = some a? := by
  cases a? with
  | none => rfl
  | some a =>
    have ha : g (f a) = some a := h a rfl
    show toOption? g (some (f a)) = _
    unfold toOption?
    split
    · next hnone => simp at hnone
    · next hsome => exact absurd (Option.some.inj hsome) (hnull a)
    · next json _ hjson =>
      obtain rfl := Option.some.inj hjson
      rw [ha, Option.map_some]

theorem isWritable_ofOption {α : Type} {f : α → Json} {a? : Option α}
    (h : ∀ a ∈ a?, (f a).IsWritable) : (ofOption f a?).IsWritable := by
  cases a? with
  | none => trivial
  | some a => exact h a rfl

theorem isWritable_ofNat (n : Nat) : (ofNat n).IsWritable :=
  Numeral.isWritable_digits false n

theorem isWritable_ofFloat (x : Float) : (ofFloat x).IsWritable :=
  isWritable_ofOption fun _ hn => Numeral.isWritable_of_ofFloat? hn

theorem isWritable_tagged {name : String} {content : Json} (h : content.IsWritable) :
    (tagged name content).IsWritable :=
  ⟨h, trivial⟩

/-! ### Doubles -/

/-- The number that JSON writes for a double is read as this double. There is no such number for
infinities and for what is no number. -/
def KeepsFloat (x : Float) : Prop :=
  (read? (ofFloat x).text).bind toFloat? = some x

instance (x : Float) : Decidable (KeepsFloat x) :=
  inferInstanceAs (Decidable (_ = _))

theorem toFloat?_ofFloat {x : Float} (h : KeepsFloat x) : (ofFloat x).toFloat? = some x := by
  have hread : read? (ofFloat x).text = some (ofFloat x) := read?_text (isWritable_ofFloat x)
  rwa [KeepsFloat, hread, Option.bind_some] at h

end Json

/-! ### Paths and comparisons -/

namespace Slice

theorem ofJson?_toJson (s : Slice) : ofJson? s.toJson = some s := by
  have hstart := Json.toNat?_ofNat s.start.toNat_lt
  have hlen := Json.toNat?_ofNat s.len.toNat_lt
  simp [ofJson?, toJson, Json.fields?, hstart, hlen]

theorem isWritable_toJson (s : Slice) : s.toJson.IsWritable :=
  ⟨Json.isWritable_ofNat _, Json.isWritable_ofNat _, trivial⟩

end Slice

namespace Path

/-- The number of steps of a path has 64 bits. -/
def IsStorable (p : Path) : Prop :=
  p.depth < 2 ^ 64

instance (p : Path) : Decidable p.IsStorable :=
  inferInstanceAs (Decidable (p.depth < 2 ^ 64))

theorem ofJson?_toJson {p : Path} (h : p.IsStorable) : ofJson? p.toJson = some p := by
  have hdepth := Json.toNat?_ofNat h
  have hsegments : (Json.array (p.segments.map .string)).toList? Json.toString? = some p.segments :=
    Json.toList?_map fun _ _ => rfl
  have hslice : Json.toOption? Slice.ofJson? (some (Json.ofOption Slice.toJson p.slice)) =
      some p.slice :=
    Json.toOption?_ofOption (fun _ => Json.noConfusion) fun s _ => Slice.ofJson?_toJson s
  simp [ofJson?, toJson, Json.fields?, Json.toString?, Json.toBool?, hdepth, hsegments, hslice]

theorem isWritable_toJson (p : Path) : p.toJson.IsWritable := by
  have hsegments : ∀ segment ∈ p.segments.map Json.string, segment.IsWritable := by
    intro segment hsegment
    obtain ⟨text, -, rfl⟩ := List.mem_map.1 hsegment
    trivial
  have hslice := Json.isWritable_ofOption fun s (_ : s ∈ p.slice) => s.isWritable_toJson
  exact ⟨trivial, trivial, Json.isWritable_ofNat _, Json.itemsWritable_iff.2 hsegments, hslice,
    trivial⟩

end Path

namespace Operand

/-- The path of an operand is storable, if it is one. -/
def IsStorable : Operand → Prop
  | .path p => p.IsStorable
  | _ => True

instance : DecidablePred IsStorable
  | .path p => inferInstanceAs (Decidable p.IsStorable)
  | .str _ => .isTrue trivial
  | .number _ => .isTrue trivial

theorem ofJson?_toJson {o : Operand} (h : o.IsStorable) : ofJson? o.toJson = some o := by
  cases o with
  | str text => rfl
  | number text => rfl
  | path p =>
    have hp := Path.ofJson?_toJson h
    simp [ofJson?, toJson, Json.tagged, Json.case?, hp]

theorem isWritable_toJson (o : Operand) : o.toJson.IsWritable := by
  cases o with
  | str text => exact Json.isWritable_tagged trivial
  | number text => exact Json.isWritable_tagged trivial
  | path p => exact Json.isWritable_tagged p.isWritable_toJson

end Operand

theorem Operator.ofJson?_toJson (op : Operator) : ofJson? op.toJson = some op := by
  cases op <;> rfl

namespace Comparison

/-- Both sides of a comparison are storable. -/
def IsStorable (c : Comparison) : Prop :=
  c.left.IsStorable ∧ c.right.IsStorable

instance (c : Comparison) : Decidable c.IsStorable :=
  inferInstanceAs (Decidable (c.left.IsStorable ∧ c.right.IsStorable))

theorem ofJson?_toJson {c : Comparison} (h : c.IsStorable) : ofJson? c.toJson = some c := by
  have hleft := Operand.ofJson?_toJson h.1
  have hright := Operand.ofJson?_toJson h.2
  simp [ofJson?, toJson, Json.fields?, hleft, c.op.ofJson?_toJson, hright]

theorem isWritable_toJson (c : Comparison) : c.toJson.IsWritable :=
  ⟨c.left.isWritable_toJson, trivial, c.right.isWritable_toJson, trivial⟩

end Comparison

/-! ### Arguments and heads of tags -/

namespace Literal

/-- A double among the constants is kept by JSON. -/
def IsStorable : Literal → Prop
  | .float x => Json.KeepsFloat x
  | _ => True

instance : DecidablePred IsStorable
  | .float x => inferInstanceAs (Decidable (Json.KeepsFloat x))
  | .str _ => .isTrue trivial
  | .int _ => .isTrue trivial
  | .bool _ => .isTrue trivial
  | .null => .isTrue trivial

theorem ofJson?_toJson {constant : Literal} (h : constant.IsStorable) :
    ofJson? (constant.toJson Json.ofFloat) = some constant := by
  cases constant with
  | str text => rfl
  | int n =>
    have hn := Json.toInt64?_ofInt n
    simp [ofJson?, toJson, Json.tagged, Json.case?, hn]
  | float x =>
    have hx := Json.toFloat?_ofFloat h
    simp [ofJson?, toJson, Json.tagged, Json.case?, hx]
  | bool b => rfl
  | null => rfl

theorem isWritable_toJson (constant : Literal) : (constant.toJson Json.ofFloat).IsWritable := by
  cases constant with
  | str text => exact Json.isWritable_tagged trivial
  | int n => exact Json.isWritable_tagged (Numeral.isWritable_digits _ _)
  | float x => exact Json.isWritable_tagged (Json.isWritable_ofFloat x)
  | bool b => exact Json.isWritable_tagged trivial
  | null => trivial

end Literal

namespace Param

/-- What an argument holds is storable. -/
def IsStorable : Param → Prop
  | .path p => p.IsStorable
  | .literal constant => constant.IsStorable
  | .comparison c => c.IsStorable

instance : DecidablePred IsStorable
  | .path p => inferInstanceAs (Decidable p.IsStorable)
  | .literal constant => inferInstanceAs (Decidable constant.IsStorable)
  | .comparison c => inferInstanceAs (Decidable c.IsStorable)

theorem ofJson?_toJson {param : Param} (h : param.IsStorable) :
    ofJson? (param.toJson Json.ofFloat) = some param := by
  cases param with
  | path p =>
    have hp := Path.ofJson?_toJson h
    simp [ofJson?, toJson, Json.tagged, Json.case?, hp]
  | literal constant =>
    have hconstant := Literal.ofJson?_toJson h
    simp [ofJson?, toJson, Json.tagged, Json.case?, hconstant]
  | comparison c =>
    have hc := Comparison.ofJson?_toJson h
    simp [ofJson?, toJson, Json.tagged, Json.case?, hc]

theorem toJson_ne_null (float : Float → Json) (param : Param) : param.toJson float ≠ .null := by
  cases param <;> exact Json.noConfusion

theorem toOption?_toJson {param? : Option Param} (h : ∀ param ∈ param?, param.IsStorable) :
    Json.toOption? ofJson? (some (Json.ofOption (toJson Json.ofFloat) param?)) = some param? :=
  Json.toOption?_ofOption (toJson_ne_null Json.ofFloat) fun param hparam =>
    ofJson?_toJson (h param hparam)

theorem isWritable_toJson (param : Param) : (param.toJson Json.ofFloat).IsWritable := by
  cases param with
  | path p => exact Json.isWritable_tagged p.isWritable_toJson
  | literal constant => exact Json.isWritable_tagged constant.isWritable_toJson
  | comparison c => exact Json.isWritable_tagged c.isWritable_toJson

end Param

namespace Call

/-- The path and the arguments of a tag are storable, and the number of its line has 64 bits. -/
structure IsStorable (call : Call) : Prop where
  path : call.path.IsStorable
  params : ∀ param ∈ call.params, param.IsStorable
  hash : ∀ entry ∈ call.hash, entry.2.IsStorable
  line : call.line < 2 ^ 64

instance (call : Call) : Decidable call.IsStorable :=
  decidable_of_iff (call.path.IsStorable ∧ (∀ param ∈ call.params, param.IsStorable) ∧
      (∀ entry ∈ call.hash, entry.2.IsStorable) ∧ call.line < 2 ^ 64)
    ⟨fun ⟨path, params, hash, line⟩ => ⟨path, params, hash, line⟩,
      fun h => ⟨h.path, h.params, h.hash, h.line⟩⟩

theorem toList?_hash {hash : List (String × Param)} (h : ∀ entry ∈ hash, entry.2.IsStorable) :
    (Json.array (hash.map fun (key, param) =>
      .array [.string key, param.toJson Json.ofFloat])).toList? pairOfJson? = some hash := by
  refine Json.toList?_map fun entry hentry => ?_
  have hparam := Param.ofJson?_toJson (h entry hentry)
  simp [pairOfJson?, Json.toString?, hparam]

theorem ofJson?_toJson {call : Call} (h : call.IsStorable) :
    ofJson? (call.toJson Json.ofFloat) = some call := by
  have hpath := Path.ofJson?_toJson h.path
  have hline := Json.toNat?_ofNat h.line
  have hparams : (Json.array (call.params.map (Param.toJson Json.ofFloat))).toList? Param.ofJson? =
      some call.params :=
    Json.toList?_map fun param hparam => Param.ofJson?_toJson (h.params param hparam)
  have hhash := toList?_hash h.hash
  simp [ofJson?, toJson, Json.fields?, Json.toString?, hpath, hparams, hhash, hline]

theorem isWritable_toJson (call : Call) : (call.toJson Json.ofFloat).IsWritable := by
  have hparams : ∀ json ∈ call.params.map (Param.toJson Json.ofFloat), json.IsWritable := by
    intro json hjson
    obtain ⟨param, -, rfl⟩ := List.mem_map.1 hjson
    exact param.isWritable_toJson
  have hhash : ∀ json ∈ call.hash.map fun entry =>
      Json.array [.string entry.1, entry.2.toJson Json.ofFloat], json.IsWritable := by
    intro json hjson
    obtain ⟨entry, -, rfl⟩ := List.mem_map.1 hjson
    exact ⟨trivial, entry.2.isWritable_toJson, trivial⟩
  exact ⟨trivial, call.path.isWritable_toJson, Json.itemsWritable_iff.2 hparams,
    Json.itemsWritable_iff.2 hhash, Json.isWritable_ofNat _, trivial⟩

end Call

/-! ### Nodes -/

mutual

/-- The heads of the tags of a node are storable, and so are the numbers of its lines. -/
def Node.IsStorable : Node → Prop
  | .text _ => True
  | .raw _ => True
  | .output call _ => call.IsStorable
  | .inline call => call.IsStorable
  | .block call branches => call.IsStorable ∧ BranchesStorable branches
  | .partialTag _ context line => (∀ param ∈ context, param.IsStorable) ∧ line < 2 ^ 64

/-- All nodes of a list are storable. -/
def NodesStorable : List Node → Prop
  | [] => True
  | node :: nodes => node.IsStorable ∧ NodesStorable nodes

/-- The conditions and bodies of branches are storable. -/
def BranchesStorable : List (Branch Node) → Prop
  | [] => True
  | ⟨condition, body⟩ :: branches =>
    (∀ param ∈ condition, param.IsStorable) ∧ NodesStorable body ∧ BranchesStorable branches

end

mutual

/-- Decides whether a node is storable. -/
def Node.decideStorable : (node : Node) → Decidable node.IsStorable
  | .text _ => .isTrue trivial
  | .raw _ => .isTrue trivial
  | .output call _ => inferInstanceAs (Decidable call.IsStorable)
  | .inline call => inferInstanceAs (Decidable call.IsStorable)
  | .block call branches =>
    have := decideBranchesStorable branches
    inferInstanceAs (Decidable (call.IsStorable ∧ BranchesStorable branches))
  | .partialTag _ context line =>
    inferInstanceAs (Decidable ((∀ param ∈ context, param.IsStorable) ∧ line < 2 ^ 64))

/-- Decides whether nodes are storable. -/
def decideNodesStorable : (nodes : List Node) → Decidable (NodesStorable nodes)
  | [] => .isTrue trivial
  | node :: nodes =>
    have := node.decideStorable
    have := decideNodesStorable nodes
    inferInstanceAs (Decidable (node.IsStorable ∧ NodesStorable nodes))

/-- Decides whether branches are storable. -/
def decideBranchesStorable : (branches : List (Branch Node)) → Decidable (BranchesStorable branches)
  | [] => .isTrue trivial
  | ⟨condition, body⟩ :: branches =>
    have := decideNodesStorable body
    have := decideBranchesStorable branches
    inferInstanceAs (Decidable
      ((∀ param ∈ condition, param.IsStorable) ∧ NodesStorable body ∧ BranchesStorable branches))

end

/-- All nodes of a tree are storable: JSON keeps its doubles, and its counts have 64 bits. -/
def Template.IsStorable (t : Template) : Prop :=
  NodesStorable t.nodes

instance (t : Template) : Decidable t.IsStorable :=
  decideNodesStorable t.nodes

theorem nodesStorable_iff {nodes : List Node} :
    NodesStorable nodes ↔ ∀ node ∈ nodes, node.IsStorable := by
  induction nodes with
  | nil => simp [NodesStorable]
  | cons node nodes ih => simp [NodesStorable, ih]

theorem branchesStorable_iff {branches : List (Branch Node)} :
    BranchesStorable branches ↔ ∀ branch ∈ branches,
      (∀ param ∈ branch.condition, param.IsStorable) ∧ NodesStorable branch.body := by
  induction branches with
  | nil => simp [BranchesStorable]
  | cons branch branches ih => simp [BranchesStorable, ih, and_assoc]

/-- The stored form of a branch. -/
def branchToJson (branch : Branch Node) : Json :=
  .object
    [("condition", Json.ofOption (Param.toJson Json.ofFloat) branch.condition),
      ("body", .array (nodesToJson Json.ofFloat branch.body))]

theorem nodesToJson_eq_map (nodes : List Node) :
    nodesToJson Json.ofFloat nodes = nodes.map (Node.toJson Json.ofFloat) := by
  induction nodes with
  | nil => rfl
  | cons node nodes ih => simp [nodesToJson, ih]

theorem branchesToJson_eq_map (branches : List (Branch Node)) :
    branchesToJson Json.ofFloat branches = branches.map branchToJson := by
  induction branches with
  | nil => rfl
  | cons branch branches ih => simp [branchesToJson, ih, branchToJson]

mutual

theorem Node.isWritable_toJson (node : Node) : (node.toJson Json.ofFloat).IsWritable := by
  cases node with
  | text body => exact Json.isWritable_tagged trivial
  | raw body => exact Json.isWritable_tagged trivial
  | output call escaped =>
    exact Json.isWritable_tagged ⟨call.isWritable_toJson, trivial, trivial⟩
  | inline call => exact Json.isWritable_tagged call.isWritable_toJson
  | block call branches =>
    exact Json.isWritable_tagged
      ⟨call.isWritable_toJson, branches_isWritable_toJson branches, trivial⟩
  | partialTag name context line =>
    have hcontext := Json.isWritable_ofOption
      fun param (_ : param ∈ context) => param.isWritable_toJson
    exact Json.isWritable_tagged ⟨trivial, hcontext, Json.isWritable_ofNat _, trivial⟩

theorem nodes_isWritable_toJson (nodes : List Node) :
    Json.ItemsWritable (nodesToJson Json.ofFloat nodes) := by
  match nodes with
  | [] => trivial
  | node :: nodes => exact ⟨node.isWritable_toJson, nodes_isWritable_toJson nodes⟩

theorem branches_isWritable_toJson (branches : List (Branch Node)) :
    Json.ItemsWritable (branchesToJson Json.ofFloat branches) := by
  match branches with
  | [] => trivial
  | ⟨condition, body⟩ :: branches =>
    have hcondition := Json.isWritable_ofOption
      fun param (_ : param ∈ condition) => param.isWritable_toJson
    exact ⟨⟨hcondition, nodes_isWritable_toJson body, trivial⟩,
      branches_isWritable_toJson branches⟩

end

namespace Node

theorem branchOfJson?_branchToJson {body : Json → Option (List Node)} {branch : Branch Node}
    (hcondition : ∀ param ∈ branch.condition, param.IsStorable)
    (hbody : body (.array (nodesToJson Json.ofFloat branch.body)) = some branch.body) :
    branchOfJson? body (branchToJson branch) = some branch := by
  have hparam := Param.toOption?_toJson hcondition
  simp [branchOfJson?, branchToJson, Json.fields?, hparam, hbody]

theorem ofJsonWith?_toJson {body : Json → Option (List Node)} {node : Node} (h : node.IsStorable)
    (hbody : ∀ call branches, node = .block call branches → ∀ branch ∈ branches,
      body (.array (nodesToJson Json.ofFloat branch.body)) = some branch.body) :
    ofJsonWith? body (node.toJson Json.ofFloat) = some node := by
  cases node with
  | text content => rfl
  | raw content => rfl
  | output call escaped =>
    have hcall := Call.ofJson?_toJson h
    simp [ofJsonWith?, toJson, Json.tagged, Json.case?, Json.fields?, Json.toBool?, hcall]
  | inline call =>
    have hcall := Call.ofJson?_toJson h
    simp [ofJsonWith?, toJson, Json.tagged, Json.case?, hcall]
  | block call branches =>
    have hcall := Call.ofJson?_toJson h.1
    have hbranches : (Json.array (branchesToJson Json.ofFloat branches)).toList?
        (branchOfJson? body) = some branches := by
      rw [branchesToJson_eq_map]
      refine Json.toList?_map fun branch hbranch => ?_
      have hcondition := (branchesStorable_iff.1 h.2 branch hbranch).1
      exact branchOfJson?_branchToJson hcondition (hbody call branches rfl branch hbranch)
    simp [ofJsonWith?, toJson, Json.tagged, Json.case?, Json.fields?, hcall, hbranches]
  | partialTag name context line =>
    have hcontext := Param.toOption?_toJson h.1
    have hline := Json.toNat?_ofNat h.2
    simp [ofJsonWith?, toJson, Json.tagged, Json.case?, Json.fields?, Json.toString?, hcontext,
      hline]

theorem depth_toJson_pos (node : Node) : 0 < (node.toJson Json.ofFloat).depth := by
  cases node <;> exact Nat.succ_pos _

theorem itemsDepth_body_lt (call : Call) {branches : List (Branch Node)} {branch : Branch Node}
    (h : branch ∈ branches) :
    Json.itemsDepth (nodesToJson Json.ofFloat branch.body) <
      ((Node.block call branches).toJson Json.ofFloat).depth := by
  have hbranch : (branchToJson branch).depth ≤
      Json.itemsDepth (branchesToJson Json.ofFloat branches) := by
    rw [branchesToJson_eq_map]
    exact Json.depth_le_itemsDepth (List.mem_map_of_mem h)
  simp only [branchToJson, toJson, Json.tagged, Json.depth, Json.membersDepth] at hbranch ⊢
  omega

/-- Nodes are read back with any bound that the nesting of their stored form keeps. -/
theorem listOfJson?_nodesToJson {levels : Nat} {nodes : List Node} (h : NodesStorable nodes)
    (hlevels : Json.itemsDepth (nodesToJson Json.ofFloat nodes) ≤ levels) :
    listOfJson? levels (.array (nodesToJson Json.ofFloat nodes)) = some nodes := by
  -- Each block takes a level, and its stored form is nested deeper than the bodies of its branches.
  induction levels generalizing nodes with
  | zero =>
    cases nodes with
    | nil => rfl
    | cons node nodes =>
      have hpos := node.depth_toJson_pos
      simp only [nodesToJson, Json.itemsDepth] at hlevels
      omega
  | succ levels ih =>
    rw [nodesToJson_eq_map] at hlevels ⊢
    refine Json.toList?_map fun node hnode => ?_
    have hstorable := nodesStorable_iff.1 h node hnode
    refine ofJsonWith?_toJson hstorable fun call branches hblock branch hbranch => ?_
    subst hblock
    have hbody := (branchesStorable_iff.1 hstorable.2 branch hbranch).2
    have hlt := itemsDepth_body_lt call hbranch
    have hle := Json.depth_le_itemsDepth (List.mem_map_of_mem (f := Node.toJson Json.ofFloat) hnode)
    exact ih hbody (by omega)

end Node

namespace Template

theorem isWritable_toJson (t : Template) : t.toJson.IsWritable :=
  ⟨nodes_isWritable_toJson t.nodes, trivial⟩

theorem ofJson?_toJson {t : Template} (h : t.IsStorable) : ofJson? t.toJson = some t := by
  have hdepth : Json.itemsDepth (nodesToJson Json.ofFloat t.nodes) ≤ t.toJson.depth := by
    simp only [toJson, toJsonWith, Json.depth, Json.membersDepth]
    omega
  have hnodes := Node.listOfJson?_nodesToJson h hdepth
  have hfields : t.toJson.fields? ["nodes"] =
      some [some (.array (nodesToJson Json.ofFloat t.nodes))] := by
    simp [toJson, toJsonWith, Json.fields?]
  simp [ofJson?, hfields, hnodes]

theorem readValue?_encode (t : Template) :
    Json.readValue? t.encode.toList.length t.encode.toList = some (t.toJson, []) :=
  Json.readValue?_text t.isWritable_toJson

theorem decode?_encode {t : Template} (h : t.IsStorable) : decode? t.encode = some t := by
  unfold decode?
  rw [Json.readForm?_of_readValue? t.readValue?_encode]
  exact ofJson?_toJson h

/-- The text of the stored form of a tree is read up to its end, and as the tree. -/
theorem roundTrip_encode {t : Template} (h : t.IsStorable) :
    Json.readValue? t.encode.toList.length t.encode.toList = some (t.toJson, []) ∧
      decode? t.encode = some t :=
  ⟨t.readValue?_encode, decode?_encode h⟩

/-- A tree with a block in another one, extreme numbers, a double that has no short binary form, and
characters that are escaped or beyond the first plane. -/
theorem roundTrip_encode_nested :
    let path : Path := ⟨"@../\x22é\x22", true, 2 ^ 64 - 1, ["\x00", "😀"], some ⟨0, -1⟩⟩
    let params : List Param :=
      [.literal (.int Int64.minValue), .literal (.float (-0.1)), .literal .null, .path path]
    let call : Call :=
      ⟨"if", path, params, [("\\", .comparison ⟨.str "\n", .le, .path path⟩)], 2 ^ 64 - 1⟩
    let inner : Node := .block call [⟨none, []⟩, ⟨some (.path path), [.raw "\x7b\x7d", .inline call]⟩]
    let t : Template :=
      ⟨[.text "\t\x7f", .block call [⟨none, [inner, .output call true]⟩],
        .partialTag "p" (some (.literal (.str ""))) 0]⟩
    t.IsStorable ∧
      Json.readValue? t.encode.toList.length t.encode.toList = some (t.toJson, []) ∧
        decode? t.encode = some t := by
  intro path params call inner t
  have ht : t.IsStorable := by decide +kernel
  exact ⟨ht, roundTrip_encode ht⟩

end Template

end Stencil
