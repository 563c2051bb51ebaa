import Stencil.Template.Piece
import Stencil.Token.Scan

/-!
# From tokens to a tree

An opening tag starts a block if a closing tag of its name belongs to it, and is a tag by itself
otherwise. The tree is then put together in one pass, with the blocks that are open
on a stack.

## Main definitions

* `Token.pairs` - which closing tag belongs to which opening tag
* `Assembly` - a tree in the making
* `Assembly.place` - takes up one piece
* `Template.ofTokens` - the tree of a row of tokens
* `Template.parse` - the tree of a text

## Design notes

A closing tag belongs to the nearest opening tag of the same name in front of it that has none
yet. This is settled for the whole row beforehand and by names alone; a closing tag that then
does not meet its own opening tag on top of the stack is an error.
-/

namespace Stencil

/-- Removes the latest opening tag of the given name from a list of names and positions. -/
def Token.takePending (name : String) : List (String × Nat) → Option (Nat × List (String × Nat))
  | [] => none
  | (other, i) :: pending =>
    if other = name then some (i, pending)
    else (takePending name pending).map fun (j, rest) => (j, (other, i) :: rest)

/-- The positions of the opening and closing tags that belong together, where `pending` lists
the opening tags that have no closing tag yet, the latest one first. -/
def Token.pairsFrom (pending : List (String × Nat)) : List (Token × Nat) → List (Nat × Nat)
  | [] => []
  | (token, i) :: tokens =>
    match token.kind with
    | .opening tag => pairsFrom ((tag.name, i) :: pending) tokens
    | .closing name =>
      match takePending name pending with
      | none => pairsFrom pending tokens
      | some (j, rest) => (j, i) :: pairsFrom rest tokens
    | _ => pairsFrom pending tokens

/-- The positions of the opening and closing tags that belong together. -/
def Token.pairs (tokens : List Token) : List (Nat × Nat) :=
  pairsFrom [] tokens.zipIdx

/-- The positions of the opening tags that start a block. -/
def Token.pairedOpens (tokens : List Token) : List Nat :=
  (pairs tokens).map Prod.fst

/-- A block whose closing tag has not come yet: the position of its opening tag, the branches
that are complete, and the branch that is being filled. -/
structure OpenBlock where
  start : Nat
  call : Call
  branches : List (Branch Node)
  condition : Option Param
  body : List Node
  afterElse : Bool

/-- A tree in the making: the open blocks, the innermost one first, and the nodes outside of
them. -/
structure Assembly where
  blocks : List OpenBlock
  nodes : List Node

namespace Assembly

/-- Nothing yet. -/
def empty : Assembly := ⟨[], []⟩

/-- The helpers that have a body. Their opening tags need a closing tag. -/
def bodyHelpers : List String :=
  ["if", "unless", "each", "with", "repeat", "define"]

/-- Appends a text to a list of nodes; it joins a text at the end of the list. -/
def appendText (body : String) (nodes : List Node) : List Node :=
  match nodes.getLast? with
  | some (.text last) => nodes.dropLast ++ [.text (last ++ body)]
  | _ => nodes ++ [.text body]

/-- Changes the list of nodes that is being filled. -/
def modifyBody (a : Assembly) (f : List Node → List Node) : Assembly :=
  match a.blocks with
  | [] => { a with nodes := f a.nodes }
  | block :: blocks => { a with blocks := { block with body := f block.body } :: blocks }

/-- Appends a node to the list that is being filled. -/
def push (a : Assembly) (node : Node) : Assembly :=
  a.modifyBody (· ++ [node])

/-- Opens a block. -/
def openBlock (a : Assembly) (start : Nat) (call : Call) : Assembly :=
  { a with blocks := ⟨start, call, [], none, [], false⟩ :: a.blocks }

/-- Ends the branch that is being filled and starts another one. -/
def nextBranch (a : Assembly) (line : Nat) (condition : Option Param) :
    Except Error Assembly :=
  match a.blocks with
  | [] => .error (.parse line .elseOutside)
  | block :: blocks =>
    if block.afterElse then .error (.parse line (.afterElse block.call.name))
    else if condition.isSome ∧ block.call.name ≠ "if" then
      .error (.parse line (.elseifInside block.call.name))
    else
      let block :=
        { block with
          branches := block.branches ++ [⟨block.condition, block.body⟩]
          condition := condition
          body := []
          afterElse := condition.isNone }
      .ok { a with blocks := block :: blocks }

/-- Closes the innermost block, which has to have the given name. -/
def closeBlock (a : Assembly) (line : Nat) (name : String) : Except Error Assembly :=
  match a.blocks with
  | [] => .error (.parse line (.unexpectedClose name))
  | block :: blocks =>
    if block.call.name ≠ name then
      .error (.parse line (.mismatchedClose name block.call.name block.call.line))
    else
      let branches := block.branches ++ [⟨block.condition, block.body⟩]
      .ok (push { a with blocks := blocks } (.block block.call branches))

/-- Takes up one piece, given its line, its position in the row of tokens, and whether it is
an opening tag with a closing tag. -/
def place (a : Assembly) (line position : Nat) (paired : Bool) : Piece → Except Error Assembly
  | .text body => .ok (a.modifyBody (appendText body))
  | .raw body => .ok (a.push (.raw body))
  | .output call escaped => .ok (a.push (.output call escaped))
  | .opening call =>
    if paired then .ok (a.openBlock position call)
    else if call.name ∈ bodyHelpers then .error (.parse line (.unclosedBlock call.name))
    else .ok (a.push (.inline call))
  | .elseMark condition => a.nextBranch line condition
  | .closing name => a.closeBlock line name
  | .partialTag name context line => .ok (a.push (.partialTag name context line))

/-- Takes up one token, given the positions of the opening tags that start a block. -/
def step (opens : List Nat) (a : Assembly) (entry : Token × Nat) : Except Error Assembly := do
  let piece? ← Piece.ofToken? entry.1
  match piece? with
  | none => return a
  | some piece => a.place entry.1.line entry.2 (entry.2 ∈ opens) piece

/-- The finished tree. No block may be open. -/
def finish (a : Assembly) : Except Error Template :=
  match a.blocks with
  | [] => .ok ⟨a.nodes⟩
  | block :: _ => .error (.parse block.call.line (.unclosedBlock block.call.name))

/-! ### What a tag does -/

variable {a a' : Assembly} {line position : Nat}

/-- An `else` tag ends the branch of the innermost block, which may not be the last one already;
only blocks of `if` have further conditions. -/
theorem nextBranch_eq_ok {condition : Option Param} :
    a.nextBranch line condition = .ok a' ↔ ∃ block blocks, a.blocks = block :: blocks ∧
      block.afterElse = false ∧ (condition.isSome → block.call.name = "if") ∧
      a' =
        { a with
          blocks :=
            { block with
              branches := block.branches ++ [⟨block.condition, block.body⟩]
              condition := condition
              body := []
              afterElse := condition.isNone } :: blocks } := by
  obtain ⟨blocks, nodes⟩ := a
  constructor
  · intro h
    unfold nextBranch at h
    split at h
    · cases h
    · next block blocks hblocks =>
      split at h
      · cases h
      · next hafter =>
        split at h
        · cases h
        · next hcondition =>
          exact ⟨block, blocks, hblocks, by simpa using hafter, by simpa using hcondition,
            (Except.ok.inj h).symm⟩
  · rintro ⟨block, blocks, rfl, hafter, hname, rfl⟩
    unfold nextBranch
    simpa [hafter] using hname

/-- A closing tag takes the innermost block off the stack, which has its name. -/
theorem closeBlock_eq_ok {name : String} :
    a.closeBlock line name = .ok a' ↔ ∃ block blocks, a.blocks = block :: blocks ∧
      block.call.name = name ∧
      a' = push { a with blocks := blocks }
        (.block block.call (block.branches ++ [⟨block.condition, block.body⟩])) := by
  obtain ⟨blocks, nodes⟩ := a
  constructor
  · intro h
    unfold closeBlock at h
    split at h
    · cases h
    · next block blocks hblocks =>
      split at h
      · cases h
      · next hname =>
        exact ⟨block, blocks, hblocks, Decidable.not_not.1 hname, (Except.ok.inj h).symm⟩
  · rintro ⟨block, blocks, rfl, rfl, rfl⟩
    simp [closeBlock]

/-- An opening tag opens a block or is a node by itself; the helpers that have a body are no nodes
by themselves. -/
theorem place_opening_eq_ok {paired : Bool} {call : Call} :
    a.place line position paired (.opening call) = .ok a' ↔
      paired = true ∧ a' = a.openBlock position call ∨
        paired = false ∧ call.name ∉ bodyHelpers ∧ a' = a.push (.inline call) := by
  cases paired with
  | true => simp [place, @eq_comm _ _ a']
  | false =>
    by_cases hhelper : call.name ∈ bodyHelpers
    · simp [place, hhelper]
    · simp [place, hhelper, @eq_comm _ _ a']

end Assembly

/-- The tree of a row of tokens. -/
def Template.ofTokens (tokens : List Token) : Except Error Template := do
  let a ← tokens.zipIdx.foldlM (Assembly.step (Token.pairedOpens tokens)) Assembly.empty
  a.finish

/-- A row that has a tree leaves no block open. -/
theorem Template.foldlM_of_ofTokens {tokens : List Token} {t : Template}
    (h : ofTokens tokens = .ok t) :
    tokens.zipIdx.foldlM (Assembly.step (Token.pairedOpens tokens)) Assembly.empty =
      .ok ⟨[], t.nodes⟩ := by
  obtain ⟨⟨blocks, nodes⟩, hrun, hfinish⟩ := bind_eq_ok.1 h
  cases blocks with
  | cons block blocks => simp [Assembly.finish] at hfinish
  | nil =>
    obtain rfl := Except.ok.inj hfinish
    exact hrun

/-! ### What a run keeps -/

section Invariant

variable {P : Assembly → Prop} {Q : Piece → Prop}

/-- What every piece keeps as it is taken up, a run keeps. -/
theorem Assembly.invariant_foldlM
    (hplace : ∀ {a a' : Assembly} {line position : Nat} {paired : Bool} {piece : Piece}, P a →
      Q piece → a.place line position paired piece = .ok a' → P a')
    {opens : List Nat} {entries : List (Token × Nat)}
    (hentries : ∀ entry ∈ entries, ∀ piece, Piece.ofToken? entry.1 = .ok (some piece) → Q piece)
    {a a' : Assembly} (h : P a) (hrun : entries.foldlM (step opens) a = .ok a') : P a' := by
  induction entries generalizing a with
  | nil =>
    obtain rfl := Except.ok.inj hrun
    exact h
  | cons entry entries ih =>
    rw [List.foldlM_cons] at hrun
    obtain ⟨mid, hstep, hrun⟩ := bind_eq_ok.1 hrun
    refine ih (fun other hother => hentries other (.tail _ hother)) ?_ hrun
    obtain ⟨piece?, hpiece, hstep⟩ := bind_eq_ok.1 hstep
    cases piece? with
    | none =>
      obtain rfl := Except.ok.inj hstep
      exact h
    | some piece => exact hplace h (hentries entry (.head _) piece hpiece) hstep

/-- What every piece keeps as it is taken up holds of a finished tree. -/
theorem Template.invariant_ofTokens (hempty : P Assembly.empty)
    (hplace : ∀ {a a' : Assembly} {line position : Nat} {paired : Bool} {piece : Piece}, P a →
      Q piece → a.place line position paired piece = .ok a' → P a')
    {tokens : List Token}
    (htokens : ∀ token ∈ tokens, ∀ piece, Piece.ofToken? token = .ok (some piece) → Q piece)
    {t : Template} (h : ofTokens tokens = .ok t) : P ⟨[], t.nodes⟩ :=
  Assembly.invariant_foldlM hplace
    (fun entry hentry => htokens entry.1 (List.fst_mem_of_mem_zipIdx hentry)) hempty
    (foldlM_of_ofTokens h)

end Invariant

/-- The tree of a text. -/
def Template.parse (source : String) : Except Error Template := do
  let tokens ← Token.scan source
  Template.ofTokens tokens

end Stencil
