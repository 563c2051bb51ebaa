import Mathlib.Data.List.Chain
import Stencil.Proofs.Template.Blocks
import Stencil.Proofs.Template.Concat
import Stencil.Proofs.Template.Paths

/-!
# The trees of texts

What the tree of a text looks like, at every depth. The scanner decides about texts and raw blocks,
the readers of words about paths, and the assembly about neighbours and branches, also while
a block is still open.

## Main definitions

* `TextsApart` - a body without neighbouring texts
* `ConditionsFit` - the conditions that the branches of a block can have
* `Template.IsWellFormed` - the trees that are read from texts
* `Assembly.IsWellFormed` - the invariant of trees in the making

Main statement: `Template.wellFormed_of_parse`.
-/

namespace Stencil

open Text

/-- Whether a node is a text. -/
def Node.isText : Node → Bool
  | .text _ => true
  | _ => false

/-- No two neighbours in a body are texts. -/
def TextsApart (body : List Node) : Prop :=
  body.IsChain fun a b => ¬ (a.isText ∧ b.isText)

/-- The conditions of the branches of a block: there is a first branch, and it has none; of those
behind it only the last one can have none, and only in blocks of `if` any has one. -/
structure ConditionsFit (name : String) (conditions : List (Option Param)) : Prop where
  first : conditions.head? = some none
  last : none ∉ conditions.tail.dropLast
  named : (∃ condition ∈ conditions.tail, condition.isSome) → name = "if"

/-- The paths in an argument can be written. -/
def Param.IsWellFormed (param : Param) : Prop :=
  ∀ p ∈ param.paths, p.IsWellFormed

/-- The paths in the head of a tag can be written. -/
def Call.IsWellFormed (call : Call) : Prop :=
  ∀ p ∈ call.paths, p.IsWellFormed

mutual

/-- The nodes that a text has, and all inside of them. -/
def Node.IsWellFormed : Node → Prop
  | .text body => body ≠ ""
  | .raw _ => True
  | .output call _ => call.IsWellFormed ∧ call.name ≠ "else" ∧ call.name ≠ "elseif"
  | .inline call =>
    call.IsWellFormed ∧ call.name ≠ "raw" ∧
      call.name ∉ ["if", "unless", "each", "with", "repeat", "define"]
  | .block call branches =>
    call.IsWellFormed ∧ call.name ≠ "raw" ∧
      ConditionsFit call.name (branches.map Branch.condition) ∧ BranchesWellFormed branches
  | .partialTag _ context _ => ∀ param ∈ context, param.IsWellFormed

/-- A row of such nodes, whatever stands next to each other. -/
def NodesWellFormed : List Node → Prop
  | [] => True
  | node :: nodes => node.IsWellFormed ∧ NodesWellFormed nodes

/-- The branches that a text has: bodies of such nodes, in which no texts are neighbours. -/
def BranchesWellFormed : List (Branch Node) → Prop
  | [] => True
  | ⟨condition, body⟩ :: branches =>
    (∀ param ∈ condition, param.IsWellFormed) ∧ TextsApart body ∧ NodesWellFormed body ∧
      BranchesWellFormed branches

end

/-- A body that a text has. -/
structure BodyWellFormed (body : List Node) : Prop where
  apart : TextsApart body
  nodes : NodesWellFormed body

/-- A tree that a text has. -/
def Template.IsWellFormed (t : Template) : Prop :=
  BodyWellFormed t.nodes

theorem nodesWellFormed_append {front back : List Node} :
    NodesWellFormed (front ++ back) ↔ NodesWellFormed front ∧ NodesWellFormed back := by
  induction front with
  | nil => simp [NodesWellFormed]
  | cons node front ih => simp only [List.cons_append, NodesWellFormed, ih, and_assoc]

theorem branchesWellFormed_concat {branches : List (Branch Node)} {condition : Option Param}
    {body : List Node} :
    BranchesWellFormed (branches ++ [⟨condition, body⟩]) ↔
      BranchesWellFormed branches ∧ (∀ param ∈ condition, param.IsWellFormed) ∧ TextsApart body ∧
        NodesWellFormed body := by
  induction branches with
  | nil => simp [BranchesWellFormed]
  | cons first branches ih => simp only [List.cons_append, BranchesWellFormed, ih, and_assoc]

/-- A node that is no text can stand behind everything. -/
theorem BodyWellFormed.concat {body : List Node} {node : Node} (h : BodyWellFormed body)
    (hnode : node.IsWellFormed) (htext : node.isText = false) :
    BodyWellFormed (body ++ [node]) where
  apart := by
    refine List.isChain_append.2 ⟨h.apart, .singleton node, fun last _ first hfirst hboth => ?_⟩
    obtain rfl := Option.some.inj hfirst
    rw [htext] at hboth
    exact Bool.false_ne_true hboth.2
  nodes := nodesWellFormed_append.2 ⟨h.nodes, hnode, trivial⟩

/-- A text is joined to a text at the end of a body, and is a node of its own otherwise. -/
theorem BodyWellFormed.appendText {body : List Node} {text : String} (h : BodyWellFormed body)
    (htext : text ≠ "") : BodyWellFormed (Assembly.appendText text body) := by
  by_cases hlast : ∃ last, body.getLast? = some (.text last)
  · obtain ⟨last, hlast⟩ := hlast
    obtain ⟨front, rfl⟩ := List.getLast?_eq_some_iff.1 hlast
    obtain ⟨hfront, -, hseam⟩ := List.isChain_append.1 h.apart
    have hnodes := (nodesWellFormed_append.1 h.nodes).1
    have hne : last ++ text ≠ "" := by simp [String.append_eq_empty_iff, htext]
    rw [Assembly.appendText_concat]
    refine ⟨List.isChain_append.2 ⟨hfront, .singleton _, ?_⟩,
      nodesWellFormed_append.2 ⟨hnodes, hne, trivial⟩⟩
    -- What the text is joined to was apart from its neighbour.
    intro before hbefore first hfirst
    obtain rfl := Option.some.inj hfirst
    exact hseam before hbefore (.text last) rfl
  · push Not at hlast
    rw [Assembly.appendText_of_not_text hlast]
    refine ⟨List.isChain_append.2 ⟨h.apart, .singleton _, ?_⟩,
      nodesWellFormed_append.2 ⟨h.nodes, htext, trivial⟩⟩
    intro last hmem first _ hboth
    cases last with
    | text body => exact hlast body hmem
    | _ => exact Bool.false_ne_true hboth.1

/-! ### Tokens and pieces -/

namespace Token

/-- What the scanner gives: texts that have characters, and no opening tags of raw blocks, which are
tokens as a whole. -/
def IsScanned (kind : TokenKind) : Prop :=
  (∀ body, kind = .text body → body ≠ "") ∧ opensRaw kind = false

theorem isScanned_of_mem_textToken {line : Nat} {text : List Char} {token : Token}
    (h : token ∈ textToken line text) : IsScanned token.kind := by
  by_cases hnil : text = []
  · rw [textToken, if_pos hnil] at h
    cases h
  · rw [textToken, if_neg hnil] at h
    obtain rfl := List.mem_singleton.1 h
    refine ⟨fun body hbody => ?_, rfl⟩
    obtain rfl := TokenKind.text.inj hbody
    simpa using hnil

theorem Takes.isScanned {line feeds : Nat} {body rest : List Char} {kind : TokenKind}
    (h : Takes line body kind feeds rest) : IsScanned kind := by
  cases h with
  | @tag taken htag hopens =>
    refine ⟨fun text htext => ?_, hopens⟩
    have hisTag := isTag_of_takeTag htag
    rw [htext] at hisTag
    cases hisTag
  | raw => exact ⟨fun text htext => (nomatch htext), rfl⟩

theorem isScanned_of_scanFrom {line : Nat} {text : List Char} {tokens : List Token}
    (h : scanFrom line text = .ok tokens) : ∀ token ∈ tokens, IsScanned token.kind := by
  have hscans := scans_iff.1 h
  clear h
  induction hscans with
  | text => exact fun token => isScanned_of_mem_textToken
  | item hsplit htakes hrest ih =>
    intro token htoken
    rcases List.mem_append.1 htoken with htoken | htoken
    · exact isScanned_of_mem_textToken htoken
    · rcases List.mem_cons.1 htoken with rfl | htoken
      · exact htakes.isScanned
      · exact ih token htoken

end Token

namespace Piece

/-- What a piece brings into a tree can be in one. -/
def IsWellFormed : Piece → Prop
  | .text body => body ≠ ""
  | .raw _ => True
  | .output call _ => call.IsWellFormed ∧ call.name ≠ "else" ∧ call.name ≠ "elseif"
  | .opening call => call.IsWellFormed ∧ call.name ≠ "raw"
  | .elseMark condition => ∀ param ∈ condition, param.IsWellFormed
  | .closing _ => True
  | .partialTag _ context _ => ∀ param ∈ context, param.IsWellFormed

theorem isWellFormed_of_ofToken? {token : Token} {piece : Piece}
    (h : ofToken? token = .ok (some piece)) (htoken : Token.IsScanned token.kind) :
    piece.IsWellFormed := by
  obtain ⟨kind, line⟩ := token
  cases ofToken_of_ofToken? h with
  | text body => exact htoken.1 body rfl
  | raw body => trivial
  | closing name => trivial
  | opening hcall =>
    refine ⟨Call.isWellFormed_of_ofTag hcall, ?_⟩
    rw [Call.name_ofTag hcall]
    simpa [Token.opensRaw, Token.rawName] using htoken.2
  | output hname hcall =>
    refine ⟨Call.isWellFormed_of_ofTag hcall, ?_⟩
    rwa [Call.name_ofTag hcall]
  | elseMark hcondition =>
    intro param hparam
    obtain ⟨arg, -, hparse⟩ := exists_arg_of_elseCondition hcondition param hparam
    exact Param.isWellFormed_of_parse hparse
  | partialTag hpartial =>
    obtain ⟨name, context, hpiece, hparse⟩ := exists_arg_of_ofPartialTag hpartial
    cases hpiece
    intro param hparam
    obtain ⟨arg, -, hparse⟩ := hparse param hparam
    exact Param.isWellFormed_of_parse hparse

end Piece

/-! ### Trees in the making -/

namespace ConditionsFit

variable {name : String} {conditions : List (Option Param)}

theorem ne_nil (h : ConditionsFit name conditions) : conditions ≠ [] := by
  rintro rfl
  cases h.first

theorem singleton (name : String) : ConditionsFit name [none] where
  first := rfl
  last := List.not_mem_nil
  named h := by simp at h

/-- As long as all branches behind the first have conditions, there can be another one. -/
theorem concat (h : ConditionsFit name conditions) (hmore : none ∉ conditions.tail)
    {condition : Option Param} (hname : condition.isSome → name = "if") :
    ConditionsFit name (conditions ++ [condition]) := by
  cases conditions with
  | nil => cases h.first
  | cons first later =>
    refine ⟨h.first, ?_, ?_⟩
    · rw [List.cons_append, List.tail_cons, List.dropLast_concat]
      exact hmore
    · rintro ⟨other, hother, hsome⟩
      rcases List.mem_append.1 hother with hother | hother
      · exact h.named ⟨other, hother, hsome⟩
      · obtain rfl := List.mem_singleton.1 hother
        exact hname hsome

end ConditionsFit

/-- The conditions of an open block: those of the complete branches, and that of the branch that is
being filled. -/
def OpenBlock.conditions (block : OpenBlock) : List (Option Param) :=
  block.branches.map Branch.condition ++ [block.condition]

/-- What an open block holds. Until an `else` tag without a condition has come, all branches behind
the first have one. -/
structure OpenBlock.IsWellFormed (block : OpenBlock) : Prop where
  call : block.call.IsWellFormed
  name : block.call.name ≠ "raw"
  fit : ConditionsFit block.call.name block.conditions
  more : block.afterElse = false → none ∉ block.conditions.tail
  branches : BranchesWellFormed block.branches
  condition : ∀ param ∈ block.condition, param.IsWellFormed
  body : BodyWellFormed block.body

namespace OpenBlock.IsWellFormed

variable {block : OpenBlock}

theorem branches_concat (h : block.IsWellFormed) :
    BranchesWellFormed (block.branches ++ [⟨block.condition, block.body⟩]) :=
  branchesWellFormed_concat.2 ⟨h.branches, h.condition, h.body.apart, h.body.nodes⟩

theorem node (h : block.IsWellFormed) :
    (Node.block block.call (block.branches ++ [⟨block.condition, block.body⟩])).IsWellFormed := by
  refine ⟨h.call, h.name, ?_, h.branches_concat⟩
  rw [List.map_append]
  exact h.fit

theorem next (h : block.IsWellFormed) (hafter : block.afterElse = false) {condition : Option Param}
    (hname : condition.isSome → block.call.name = "if")
    (hcondition : ∀ param ∈ condition, param.IsWellFormed) :
    (block.next condition).IsWellFormed := by
  have hmore := h.more hafter
  have hconditions : (block.next condition).conditions = block.conditions ++ [condition] := by
    simp [OpenBlock.next, conditions]
  refine ⟨h.call, h.name, ?_, fun hopen => ?_, h.branches_concat, hcondition, .nil, trivial⟩
  · rw [hconditions]
    exact h.fit.concat hmore hname
  · have hsome : none ∉ [condition] := by
      cases condition with
      | none => cases hopen
      | some param => simp
    rw [hconditions, List.tail_append_of_ne_nil h.fit.ne_nil]
    exact List.not_mem_append hmore hsome

end OpenBlock.IsWellFormed

namespace Assembly

/-- What a tree in the making holds. -/
structure IsWellFormed (a : Assembly) : Prop where
  blocks : ∀ block ∈ a.blocks, block.IsWellFormed
  nodes : BodyWellFormed a.nodes

namespace IsWellFormed

variable {a a' : Assembly} {line position : Nat}

theorem modifyBody (h : a.IsWellFormed) {f : List Node → List Node}
    (hf : ∀ body, BodyWellFormed body → BodyWellFormed (f body)) :
    (a.modifyBody f).IsWellFormed := by
  obtain ⟨blocks, nodes⟩ := a
  cases blocks with
  | nil => exact ⟨h.blocks, hf nodes h.nodes⟩
  | cons block blocks =>
    obtain ⟨hblock, hblocks⟩ := List.forall_mem_cons.1 h.blocks
    exact ⟨List.forall_mem_cons.2 ⟨{ hblock with body := hf _ hblock.body }, hblocks⟩, h.nodes⟩

theorem push (h : a.IsWellFormed) {node : Node} (hnode : node.IsWellFormed)
    (htext : node.isText = false) : (a.push node).IsWellFormed :=
  h.modifyBody fun _ hbody => hbody.concat hnode htext

theorem openBlock (h : a.IsWellFormed) {call : Call} (hcall : call.IsWellFormed)
    (hname : call.name ≠ "raw") : (a.openBlock position call).IsWellFormed where
  blocks := by
    refine List.forall_mem_cons.2 ⟨⟨hcall, hname, .singleton _, ?_, trivial, ?_, .nil, trivial⟩,
      h.blocks⟩
    · exact fun _ => List.not_mem_nil
    · exact fun _ hparam => nomatch hparam
  nodes := h.nodes

theorem nextBranch (h : a.IsWellFormed) {condition : Option Param}
    (hcondition : ∀ param ∈ condition, param.IsWellFormed)
    (hnext : a.nextBranch line condition = .ok a') : a'.IsWellFormed := by
  obtain ⟨block, blocks, hblocks, hafter, hname, rfl⟩ := nextBranch_eq_ok.1 hnext
  have hall := h.blocks
  rw [hblocks, List.forall_mem_cons] at hall
  obtain ⟨hblock, hrest⟩ := hall
  exact ⟨List.forall_mem_cons.2 ⟨hblock.next hafter hname hcondition, hrest⟩, h.nodes⟩

theorem closeBlock (h : a.IsWellFormed) {name : String}
    (hclose : a.closeBlock line name = .ok a') : a'.IsWellFormed := by
  obtain ⟨block, blocks, hblocks, -, rfl⟩ := closeBlock_eq_ok.1 hclose
  have hall := h.blocks
  rw [hblocks, List.forall_mem_cons] at hall
  obtain ⟨hblock, hrest⟩ := hall
  have hbelow : IsWellFormed { a with blocks := blocks } := ⟨hrest, h.nodes⟩
  exact hbelow.push hblock.node rfl

/-- Each piece keeps the invariant as it is taken up. -/
theorem place (h : a.IsWellFormed) {paired : Bool} {piece : Piece} (hpiece : piece.IsWellFormed)
    (hplace : a.place line position paired piece = .ok a') : a'.IsWellFormed := by
  cases piece with
  | text body =>
    obtain rfl := Except.ok.inj hplace
    exact h.modifyBody fun _ hbody => hbody.appendText hpiece
  | raw body =>
    obtain rfl := Except.ok.inj hplace
    exact h.push trivial rfl
  | output call escaped =>
    obtain rfl := Except.ok.inj hplace
    exact h.push hpiece rfl
  | partialTag name context line =>
    obtain rfl := Except.ok.inj hplace
    exact h.push hpiece rfl
  | opening call =>
    obtain ⟨hcall, hname⟩ := hpiece
    rcases place_opening_eq_ok.1 hplace with ⟨-, rfl⟩ | ⟨-, hhelper, rfl⟩
    · exact h.openBlock hcall hname
    · exact h.push ⟨hcall, hname, hhelper⟩ rfl
  | elseMark condition => exact h.nextBranch hpiece hplace
  | closing name => exact h.closeBlock hplace

end IsWellFormed

end Assembly

/-- **The tree of a text is well-formed at every depth.** No text in it is empty or next to another
one; each block has a first branch without a condition, at most its last branch is an `else`, and
`elseif` is in blocks of `if` only; helpers with a body have one, and raw blocks and the tags of
branches are never nodes by their names; and all paths can be written. -/
theorem Template.wellFormed_of_parse {source : String} {t : Template}
    (h : Template.parse source = .ok t) : t.IsWellFormed := by
  obtain ⟨tokens, hscan, htree⟩ := bind_eq_ok.1 h
  have hempty : Assembly.empty.IsWellFormed := ⟨fun _ h => (nomatch h), .nil, trivial⟩
  have hpieces : ∀ token ∈ tokens, ∀ piece, Piece.ofToken? token = .ok (some piece) →
      piece.IsWellFormed := fun token htoken piece hpiece =>
    Piece.isWellFormed_of_ofToken? hpiece (Token.isScanned_of_scanFrom hscan token htoken)
  have hwhole : Assembly.IsWellFormed ⟨[], t.nodes⟩ :=
    invariant_ofTokens hempty (fun h hpiece => h.place hpiece) hpieces htree
  exact hwhole.nodes

/-- Two texts with a comment between them, and a block with a condition of two segments and a data
variable. -/
theorem Template.wellFormed_of_parse_elseif :
    let source := "a\x7b\x7b!\x7d\x7db\x7b\x7b#if x\x7d\x7d\x7b\x7belseif y.z\x7d\x7d\x7b\x7b@u" ++
      "\x7d\x7d\x7b\x7b/if\x7d\x7d"
    let path (name : String) : Path := ⟨name, false, 0, [name], none⟩
    let t : Template :=
      ⟨[.text "ab",
        .block ⟨"if", path "if", [.path (path "x")], [], 1⟩
          [⟨none, []⟩, ⟨some (.path ⟨"y.z", false, 0, ["y", "z"], none⟩),
            [.output ⟨"@u", ⟨"@u", true, 0, ["u"], none⟩, [], [], 1⟩ true]⟩]]⟩
    Template.parse source = .ok t ∧ t.IsWellFormed := by
  intro source path t
  have hscan : Token.scan source = .ok
      [⟨.text "a", 1⟩, ⟨.comment "", 1⟩, ⟨.text "b", 1⟩, ⟨.opening ⟨"if", ["x"], []⟩, 1⟩,
        ⟨.output ⟨"elseif", ["y.z"], []⟩ true, 1⟩, ⟨.output ⟨"@u", [], []⟩ true, 1⟩,
        ⟨.closing "if", 1⟩] :=
    toOption_eq_some.1 (by decide +kernel)
  have hparse : Template.parse source = .ok t := bind_eq_ok.2 ⟨_, hscan, rfl⟩
  exact ⟨hparse, Template.wellFormed_of_parse hparse⟩

end Stencil
