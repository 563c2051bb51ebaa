import Mathlib.Data.List.Induction
import Mathlib.Data.List.ReduceOption
import Stencil.Template.Assembly

/-!
# A tree holds its tokens in their order

A tree in the making has a row of pieces of its own: the pieces of the nodes outside of all
blocks, then for each open block its opening tag and what it holds so far. Taking up a piece puts
it at the end of this row, whatever the piece does to the stack of blocks. So the pieces of a
finished tree are those of its tokens, with neighbouring texts joined.

## Main definitions

* `Piece.snoc` - a row with one more piece at its end
* `Piece.ofTokens?` - the pieces of a row of tokens
* `OpenBlock.pieces`, `Assembly.pieces` - the pieces of a tree in the making
-/

namespace Stencil

namespace Piece

/-- Puts a piece at the end of a row. A text joins a text that stands there. -/
def snoc : List Piece → Piece → List Piece
  | [], piece => [piece]
  | [.text a], .text b => [.text (a ++ b)]
  | first :: row, piece => first :: snoc row piece

/-- The pieces of a row of tokens. -/
def ofTokens? (tokens : List Token) : Except Error (List Piece) :=
  (tokens.mapM ofToken?).map List.reduceOption

theorem ofTokens?_cons (token : Token) (tokens : List Token) :
    ofTokens? (token :: tokens) = do
      let piece? ← ofToken? token
      let row ← ofTokens? tokens
      return piece?.toList ++ row := by
  rw [ofTokens?, List.mapM_cons]
  cases ofToken? token with
  | error e => rfl
  | ok piece? =>
    rw [ofTokens?]
    cases tokens.mapM ofToken? with
    | error e => rfl
    | ok rest => cases piece? <;> rfl

/-- Whether a piece is a text. -/
def isText : Piece → Bool
  | .text _ => true
  | _ => false

theorem snoc_cons {first piece : Piece} {row : List Piece}
    (h : first.isText = false ∨ row ≠ [] ∨ piece.isText = false) :
    snoc (first :: row) piece = first :: snoc row piece := by
  rw [snoc]
  rintro a b rfl rfl rfl
  simp [isText] at h

/-- Only a text can join a text. -/
theorem snoc_of_not_isText {piece : Piece} (h : piece.isText = false) (row : List Piece) :
    snoc row piece = row ++ [piece] := by
  induction row with
  | nil => rfl
  | cons first row ih => rw [snoc_cons (.inr (.inr h)), ih, List.cons_append]

/-- A text at the end of a row is what the next text joins. -/
theorem snoc_concat_text (row : List Piece) (a b : String) :
    snoc (row ++ [.text a]) (.text b) = row ++ [.text (a ++ b)] := by
  induction row with
  | nil => rfl
  | cons first row ih =>
    rw [List.cons_append, snoc_cons (.inr (.inl (by simp))), ih, List.cons_append]

/-- Behind a row that does not end in a text nothing is joined to it. -/
theorem snoc_append {front : List Piece} (h : ∀ last ∈ front.getLast?, last.isText = false)
    (back : List Piece) (piece : Piece) :
    snoc (front ++ back) piece = front ++ snoc back piece := by
  induction front with
  | nil => rfl
  | cons first front ih =>
    cases front with
    | nil => exact snoc_cons (.inl (h first (by simp)))
    | cons second front =>
      have hfront : ∀ last ∈ (second :: front).getLast?, last.isText = false := by
        simpa only [List.getLast?_cons_cons] using h
      rw [List.cons_append, snoc_cons (.inr (.inl (by simp))), ih hfront]
      rfl

theorem joinTexts_cons_of_not_isText {piece : Piece} (h : piece.isText = false)
    (row : List Piece) : joinTexts (piece :: row) = piece :: joinTexts row := by
  cases piece <;> first | rfl | simp [isText] at h

/-- Joining the texts of a row can be done while the row grows. -/
theorem joinTexts_concat (row : List Piece) (piece : Piece) :
    joinTexts (row ++ [piece]) = snoc (joinTexts row) piece := by
  induction row with
  | nil => cases piece <;> rfl
  | cons first row ih =>
    cases hfirst : first.isText with
    | false =>
      rw [List.cons_append, joinTexts_cons_of_not_isText hfirst, ih,
        joinTexts_cons_of_not_isText hfirst, ← List.singleton_append (l := joinTexts row),
        snoc_append (by simpa using hfirst), List.singleton_append]
    | true =>
      obtain ⟨a, rfl⟩ : ∃ a, first = .text a := by
        cases first <;> simp_all [isText]
      simp only [List.cons_append, joinTexts, ih]
      -- The first text joins the front of the row, the new piece its end.
      cases joinTexts row with
      | nil => cases piece <;> simp [snoc]
      | cons second rest =>
        cases rest <;> cases second <;> cases piece <;> simp [snoc, String.append_assoc]

theorem joinTexts_eq_foldl (row : List Piece) : joinTexts row = row.foldl snoc [] := by
  induction row using List.reverseRecOn with
  | nil => rfl
  | append_singleton row piece ih => rw [joinTexts_concat, ih, List.foldl_concat]

end Piece

/-! ### The pieces of a tree in the making -/

theorem nodesPieces_append (front back : List Node) :
    nodesPieces (front ++ back) = nodesPieces front ++ nodesPieces back := by
  induction front with
  | nil => rfl
  | cons node front ih => simp only [List.cons_append, nodesPieces, ih, List.append_assoc]

theorem nodesPieces_singleton (node : Node) : nodesPieces [node] = node.pieces := by
  simp only [nodesPieces, List.append_nil]

/-- The last branch stands behind its `else` tag, unless it is the only one. -/
theorem branchesPieces_concat (isFirst : Bool) (branches : List (Branch Node))
    (branch : Branch Node) :
    branchesPieces isFirst (branches ++ [branch]) =
      branchesPieces isFirst branches ++
        (if isFirst && branches.isEmpty then [] else [.elseMark branch.condition]) ++
        nodesPieces branch.body := by
  induction branches generalizing isFirst with
  | nil => cases isFirst <;> simp [branchesPieces]
  | cons first branches ih => simp [branchesPieces, ih]

/-- A node that is no text does not end in one. -/
theorem Node.getLast?_pieces {node : Node} (h : ∀ body, node ≠ .text body) :
    ∀ last ∈ node.pieces.getLast?, last.isText = false := by
  cases node with
  | text body => exact absurd rfl (h body)
  | block call branches =>
    rw [Node.pieces, List.getLast?_concat]
    simp [Piece.isText]
  | _ => simp [Node.pieces, Piece.isText]

theorem Node.pieces_ne_nil (node : Node) : node.pieces ≠ [] := by
  cases node <;> simp [Node.pieces]

namespace Assembly

/-- A text becomes the last node or joins it, as it does among pieces. -/
theorem nodesPieces_appendText (body : String) (nodes : List Node) :
    nodesPieces (appendText body nodes) = Piece.snoc (nodesPieces nodes) (.text body) := by
  cases nodes using List.reverseRecOn with
  | nil => rfl
  | append_singleton front last =>
    by_cases hlast : ∃ a, last = .text a
    · obtain ⟨a, rfl⟩ := hlast
      simp [appendText, nodesPieces_append, nodesPieces, Node.pieces, Piece.snoc_concat_text]
    · push Not at hlast
      have hnone : ∀ p ∈ (nodesPieces (front ++ [last])).getLast?, p.isText = false := by
        rw [nodesPieces_append, nodesPieces_singleton,
          List.getLast?_append_of_ne_nil _ last.pieces_ne_nil]
        exact Node.getLast?_pieces hlast
      rw [← List.append_nil (nodesPieces (front ++ [last])), Piece.snoc_append hnone]
      cases last <;> simp_all [appendText, nodesPieces_append, nodesPieces, Node.pieces, Piece.snoc]

end Assembly

/-- The pieces of an open block in front of the nodes of the branch that is being filled. -/
def OpenBlock.front (block : OpenBlock) : List Piece :=
  .opening block.call :: branchesPieces true block.branches ++
    if block.branches.isEmpty then [] else [.elseMark block.condition]

/-- The pieces of an open block: its opening tag, the branches that are complete, and the branch
that is being filled. -/
def OpenBlock.pieces (block : OpenBlock) : List Piece :=
  block.front ++ nodesPieces block.body

theorem OpenBlock.getLast?_front (block : OpenBlock) :
    ∀ last ∈ block.front.getLast?, last.isText = false := by
  intro last hlast
  cases hbranches : block.branches with
  | nil =>
    obtain rfl : .opening block.call = last := by
      simpa [front, hbranches, branchesPieces] using hlast
    rfl
  | cons =>
    rw [front, hbranches, List.isEmpty_cons, if_neg (by simp), List.getLast?_concat] at hlast
    obtain rfl : .elseMark block.condition = last := by simpa using hlast
    rfl

/-- With its closing tag an open block has the pieces of the node that it becomes. -/
theorem OpenBlock.pieces_append_closing (block : OpenBlock) :
    block.pieces ++ [.closing block.call.name] =
      (Node.block block.call (block.branches ++ [⟨block.condition, block.body⟩])).pieces := by
  simp [pieces, front, Node.pieces, branchesPieces_concat]

namespace Assembly

/-- The pieces of a tree in the making, from the outermost block to the innermost one. -/
def pieces (a : Assembly) : List Piece :=
  nodesPieces a.nodes ++ a.blocks.reverse.flatMap OpenBlock.pieces

theorem pieces_cons (block : OpenBlock) (blocks : List OpenBlock) (nodes : List Node) :
    pieces ⟨block :: blocks, nodes⟩ = pieces ⟨blocks, nodes⟩ ++ block.pieces := by
  simp [pieces]

theorem pieces_push (a : Assembly) (node : Node) :
    (a.push node).pieces = a.pieces ++ node.pieces := by
  obtain ⟨blocks, nodes⟩ := a
  cases blocks with
  | nil => simp [push, modifyBody, pieces, nodesPieces_append, nodesPieces_singleton]
  | cons block blocks =>
    simp [push, modifyBody, pieces_cons, OpenBlock.pieces, OpenBlock.front, nodesPieces_append,
      nodesPieces_singleton]

theorem pieces_text (a : Assembly) (body : String) :
    (a.modifyBody (appendText body)).pieces = Piece.snoc a.pieces (.text body) := by
  obtain ⟨blocks, nodes⟩ := a
  cases blocks with
  | nil => simp [modifyBody, pieces, nodesPieces_appendText]
  | cons block blocks =>
    have hlast : ∀ last ∈ (pieces ⟨blocks, nodes⟩ ++ block.front).getLast?,
        last.isText = false := by
      rw [List.getLast?_append_of_ne_nil _ (by simp [OpenBlock.front])]
      exact block.getLast?_front
    -- In front of the body of a branch there is a tag, which keeps texts apart.
    have hblock : pieces ⟨block :: blocks, nodes⟩ =
        pieces ⟨blocks, nodes⟩ ++ block.front ++ nodesPieces block.body := by
      rw [pieces_cons, OpenBlock.pieces, List.append_assoc]
    rw [hblock, Piece.snoc_append hlast, ← nodesPieces_appendText]
    simp [modifyBody, pieces_cons, OpenBlock.pieces, OpenBlock.front]

/-- An `else` tag ends a branch: its piece follows those of the branch. -/
theorem pieces_nextBranch {a a' : Assembly} {line : Nat} {condition : Option Param}
    (h : a.nextBranch line condition = .ok a') :
    a'.pieces = a.pieces ++ [.elseMark condition] := by
  obtain ⟨blocks, nodes⟩ := a
  obtain ⟨block, blocks, rfl, -, -, rfl⟩ := nextBranch_eq_ok.1 h
  simp [pieces_cons, OpenBlock.pieces, OpenBlock.front, branchesPieces_concat, nodesPieces]

/-- A closing tag turns a block into a node: its piece follows those of the block. -/
theorem pieces_closeBlock {a a' : Assembly} {line : Nat} {name : String}
    (h : a.closeBlock line name = .ok a') : a'.pieces = a.pieces ++ [.closing name] := by
  obtain ⟨blocks, nodes⟩ := a
  obtain ⟨block, blocks, rfl, rfl, rfl⟩ := closeBlock_eq_ok.1 h
  rw [pieces_push, pieces_cons, List.append_assoc, block.pieces_append_closing]

/-- Taking up a piece puts it at the end of the row. -/
theorem pieces_place {a a' : Assembly} {line position : Nat} {paired : Bool} {piece : Piece}
    (h : a.place line position paired piece = .ok a') :
    a'.pieces = Piece.snoc a.pieces piece := by
  have snoc_eq (hpiece : piece.isText = false) : Piece.snoc a.pieces piece = a.pieces ++ [piece] :=
    Piece.snoc_of_not_isText hpiece _
  cases piece with
  | text body =>
    obtain rfl : a.modifyBody (appendText body) = a' := by simpa [place] using h
    exact a.pieces_text body
  | raw body =>
    obtain rfl : a.push (.raw body) = a' := by simpa [place] using h
    rw [pieces_push, snoc_eq rfl, Node.pieces]
  | output call escaped =>
    obtain rfl : a.push (.output call escaped) = a' := by simpa [place] using h
    rw [pieces_push, snoc_eq rfl, Node.pieces]
  | partialTag name context line =>
    obtain rfl : a.push (.partialTag name context line) = a' := by simpa [place] using h
    rw [pieces_push, snoc_eq rfl, Node.pieces]
  | opening call =>
    rw [snoc_eq rfl]
    rcases place_opening_eq_ok.1 h with ⟨-, rfl⟩ | ⟨-, -, rfl⟩
    · simp [openBlock, OpenBlock.pieces, OpenBlock.front, branchesPieces, nodesPieces, pieces]
    · rw [pieces_push, Node.pieces]
  | elseMark condition =>
    rw [snoc_eq rfl]
    exact pieces_nextBranch h
  | closing name =>
    rw [snoc_eq rfl]
    exact pieces_closeBlock h

/-- What a step of the assembly does: the piece of the token, if it has one, is put at the end. -/
theorem pieces_step {opens : List Nat} {a a' : Assembly} {entry : Token × Nat}
    (h : step opens a entry = .ok a') :
    ∃ piece?, Piece.ofToken? entry.1 = .ok piece? ∧
      a'.pieces = piece?.toList.foldl Piece.snoc a.pieces := by
  rw [step, bind_eq_ok] at h
  obtain ⟨piece?, hpiece, h⟩ := h
  refine ⟨piece?, hpiece, ?_⟩
  cases piece? with
  | none =>
    obtain rfl : a = a' := by simpa [pure, Except.pure] using h
    rfl
  | some piece => exact pieces_place h

/-- What a run of the assembly does: the pieces of the tokens are put at the end one by one. -/
theorem pieces_foldlM {opens : List Nat} {entries : List (Token × Nat)} {a a' : Assembly}
    (h : entries.foldlM (step opens) a = .ok a') :
    ∃ row, Piece.ofTokens? (entries.map Prod.fst) = .ok row ∧
      a'.pieces = row.foldl Piece.snoc a.pieces := by
  induction entries generalizing a with
  | nil =>
    obtain rfl : a = a' := by simpa [pure, Except.pure] using h
    exact ⟨[], rfl, rfl⟩
  | cons entry entries ih =>
    rw [List.foldlM_cons, bind_eq_ok] at h
    obtain ⟨mid, hstep, h⟩ := h
    obtain ⟨piece?, hpiece, hmid⟩ := pieces_step hstep
    obtain ⟨row, hrow, ha'⟩ := ih h
    refine ⟨piece?.toList ++ row, ?_, ?_⟩
    · rw [List.map_cons, Piece.ofTokens?_cons, hpiece, hrow]
      rfl
    · rw [ha', hmid, List.foldl_append]

end Assembly

/-- **A tree holds its tokens in their order.** The pieces of the tree of a row of tokens are those
of the tokens: each token has its meaning in the tree, in its place, and texts that have nothing
but comments between them are one text. -/
theorem Template.pieces_ofTokens {tokens : List Token} {t : Template}
    (h : Template.ofTokens tokens = .ok t) :
    (Piece.ofTokens? tokens).map Piece.joinTexts = .ok (nodesPieces t.nodes) := by
  rw [ofTokens, bind_eq_ok] at h
  obtain ⟨⟨blocks, nodes⟩, hrun, hfinish⟩ := h
  obtain ⟨row, hrow, ha⟩ := Assembly.pieces_foldlM hrun
  rw [List.zipIdx_map_fst] at hrow
  cases blocks with
  | cons block blocks => simp [Assembly.finish] at hfinish
  | nil =>
    obtain rfl : (⟨nodes⟩ : Template) = t := by simpa [Assembly.finish] using hfinish
    rw [hrow, Except.map, Piece.joinTexts_eq_foldl]
    simpa [Assembly.pieces, Assembly.empty, nodesPieces] using ha.symm

/-- Two texts with a comment between them, and a block with an `else` branch. -/
theorem Template.pieces_ofTokens_else :
    let tokens : List Token :=
      [⟨.text "a", 1⟩, ⟨.comment "gone", 1⟩, ⟨.text "b\n", 1⟩, ⟨.opening ⟨"if", ["x"], []⟩, 2⟩,
        ⟨.raw "c", 2⟩, ⟨.output ⟨"else", [], []⟩ true, 2⟩, ⟨.output ⟨"y", [], []⟩ false, 3⟩,
        ⟨.closing "if", 3⟩]
    let path (name : String) : Path := ⟨name, false, 0, [name], none⟩
    let t : Template :=
      ⟨[.text "ab\n",
        .block ⟨"if", path "if", [.path (path "x")], [], 2⟩
          [⟨none, [.raw "c"]⟩, ⟨none, [.output ⟨"y", path "y", [], [], 3⟩ false]⟩]]⟩
    Template.ofTokens tokens = .ok t ∧
      (Piece.ofTokens? tokens).map Piece.joinTexts = .ok (nodesPieces t.nodes) :=
  ⟨rfl, Template.pieces_ofTokens rfl⟩

end Stencil
