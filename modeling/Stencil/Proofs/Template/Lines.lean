import Stencil.Template.Piece

/-!
# Lines in trees

The line on which a tag starts is kept in its node and in the errors about its words. What the
words mean does not depend on it: a token further down has the same piece further down.

## Main definitions

* `Call.moveLines`, `Node.moveLines`, `Piece.moveLines` - heads of tags, nodes and pieces further
  down

Main statement: `Piece.ofToken?_moveLines`.
-/

namespace Stencil

open Text

variable {line d : Nat} {text : List Char} {tag : Tag}

/-! ### Moving lines -/

/-- A token on a line that is further down by a number of lines. -/
def Token.moveLines (d : Nat) (token : Token) : Token :=
  { token with line := token.line + d }

/-- The head of a tag on a line that is further down. -/
def Call.moveLines (d : Nat) (call : Call) : Call :=
  { call with line := call.line + d }

mutual

/-- A node whose tags are on lines that are further down. -/
def Node.moveLines (d : Nat) : Node → Node
  | .text body => .text body
  | .output call escaped => .output (call.moveLines d) escaped
  | .inline call => .inline (call.moveLines d)
  | .block call branches => .block (call.moveLines d) (branchesMoveLines d branches)
  | .raw body => .raw body
  | .partialTag name context line => .partialTag name context (line + d)

/-- Nodes whose tags are on lines that are further down. -/
def nodesMoveLines (d : Nat) : List Node → List Node
  | [] => []
  | node :: nodes => node.moveLines d :: nodesMoveLines d nodes

/-- Branches whose tags are on lines that are further down. -/
def branchesMoveLines (d : Nat) : List (Branch Node) → List (Branch Node)
  | [] => []
  | ⟨condition, body⟩ :: branches =>
    ⟨condition, nodesMoveLines d body⟩ :: branchesMoveLines d branches

end

/-- A piece whose tag is on a line that is further down. -/
def Piece.moveLines (d : Nat) : Piece → Piece
  | .output call escaped => .output (call.moveLines d) escaped
  | .opening call => .opening (call.moveLines d)
  | .partialTag name context line => .partialTag name context (line + d)
  | piece => piece

theorem nodesMoveLines_eq_map (d : Nat) (nodes : List Node) :
    nodesMoveLines d nodes = nodes.map (Node.moveLines d) := by
  induction nodes with
  | nil => rfl
  | cons node nodes ih => rw [nodesMoveLines, ih, List.map_cons]

theorem branchesMoveLines_eq_map (d : Nat) (branches : List (Branch Node)) :
    branchesMoveLines d branches =
      branches.map fun branch => ⟨branch.condition, nodesMoveLines d branch.body⟩ := by
  induction branches with
  | nil => rfl
  | cons branch branches ih => rw [branchesMoveLines, ih, List.map_cons]

/-! ### The line counts in errors only -/

theorem Path.parse_line {path : Path} (h : Path.parse line text = .ok path) (line' : Nat) :
    Path.parse line' text = .ok path := by
  unfold Path.parse at h ⊢
  split at h
  · exact h
  · cases h

namespace Comparison

theorem wordOperand_line {operand : Operand} (h : wordOperand line text = .ok operand)
    (line' : Nat) : wordOperand line' text = .ok operand := by
  unfold wordOperand at h ⊢
  split at h
  · next hword => rwa [if_pos hword]
  · next hword =>
    rw [if_neg hword]
    split at h
    · next hnull => rwa [if_pos hnull]
    · next hnull =>
      rw [if_neg hnull]
      split at h
      · next hnumber => rwa [if_pos hnumber]
      · next hnumber =>
        rw [if_neg hnumber]
        obtain ⟨path, hpath, rfl⟩ := map_eq_ok.1 h
        exact map_eq_ok.2 ⟨path, Path.parse_line hpath line', rfl⟩

theorem readOperand_line {result : Operand × List Char}
    (h : readOperand line text = .ok result) (line' : Nat) :
    readOperand line' text = .ok result := by
  unfold readOperand at h ⊢
  split at h
  · cases h
  · split at h
    · next hquote =>
      simp only [if_pos hquote] at h ⊢
      split at h
      · cases h
      · exact h
    · next hquote =>
      simp only [if_neg hquote] at h ⊢
      split at h
      · cases h
      · next hword =>
        rw [if_neg hword]
        rw [bind_eq_ok] at h ⊢
        obtain ⟨operand, hoperand, h⟩ := h
        exact ⟨operand, wordOperand_line hoperand line', h⟩

theorem readOperator_line {result : Operator × List Char}
    (h : readOperator line text = .ok result) (line' : Nat) :
    readOperator line' text = .ok result := by
  unfold readOperator at h ⊢
  simp only at h ⊢
  split at h
  · exact h
  · cases h

theorem parse_line {comparison : Comparison} (h : parse line text = .ok comparison)
    (line' : Nat) : parse line' text = .ok comparison := by
  simp only [parse, bind_eq_ok] at h ⊢
  obtain ⟨left, hleft, op, hop, right, hright, h⟩ := h
  refine ⟨left, readOperand_line hleft line', op, readOperator_line hop line', right,
    readOperand_line hright line', ?_⟩
  split at h
  · next hrest => rwa [if_pos hrest]
  · cases h

end Comparison

theorem Param.parse_line {param : Param} (h : Param.parse line text = .ok param) (line' : Nat) :
    Param.parse line' text = .ok param := by
  unfold Param.parse at h ⊢
  split at h
  · obtain ⟨comparison, hcomparison, rfl⟩ := map_eq_ok.1 h
    exact map_eq_ok.2 ⟨comparison, Comparison.parse_line hcomparison line', rfl⟩
  · split at h
    · exact h
    · split at h
      · exact h
      · obtain ⟨path, hpath, rfl⟩ := map_eq_ok.1 h
        exact map_eq_ok.2 ⟨path, Path.parse_line hpath line', rfl⟩

theorem Call.ofTag_moveLines {call : Call} (h : Call.ofTag line tag = .ok call) (d : Nat) :
    Call.ofTag (line + d) tag = .ok (call.moveLines d) := by
  simp only [Call.ofTag, bind_eq_ok] at h ⊢
  obtain ⟨path, hpath, params, hparams, hash, hhash, h⟩ := h
  obtain rfl := Except.ok.inj h
  refine ⟨path, Path.parse_line hpath _, params, mapM_mono hparams ?_, hash,
    mapM_mono hhash ?_, rfl⟩
  · intro arg _ param hparam
    exact Param.parse_line hparam _
  · rintro ⟨key, value⟩ _ pair hpair
    rw [bind_eq_ok] at hpair ⊢
    obtain ⟨param, hparam, hpair⟩ := hpair
    exact ⟨param, Param.parse_line hparam _, hpair⟩

namespace Piece

theorem elseCondition_line {condition : Option Param}
    (h : elseCondition line tag = .ok condition) (line' : Nat) :
    elseCondition line' tag = .ok condition := by
  obtain ⟨hhash, halone | ⟨arg, param, hargs, hparse, hcondition⟩⟩ := elseCondition_eq_ok.1 h
  · exact elseCondition_eq_ok.2 ⟨hhash, .inl halone⟩
  · have hparse' := Param.parse_line hparse line'
    exact elseCondition_eq_ok.2 ⟨hhash, .inr ⟨arg, param, hargs, hparse', hcondition⟩⟩

theorem ofPartialTag_moveLines {piece : Piece} (h : ofPartialTag line tag = .ok piece) (d : Nat) :
    ofPartialTag (line + d) tag = .ok (piece.moveLines d) := by
  obtain ⟨hhash, context, hcontext, rfl⟩ := ofPartialTag_eq_ok.1 h
  refine ofPartialTag_eq_ok.2 ⟨hhash, context, ?_, rfl⟩
  rcases hcontext with hnone | ⟨arg, param, hargs, hparse, hcontext⟩
  · exact .inl hnone
  · exact .inr ⟨arg, param, hargs, Param.parse_line hparse _, hcontext⟩

/-- What a token means does not depend on its line. -/
theorem ofToken?_moveLines {token : Token} {piece? : Option Piece}
    (h : ofToken? token = .ok piece?) (d : Nat) :
    ofToken? (token.moveLines d) = .ok (piece?.map (moveLines d)) := by
  obtain ⟨kind, line⟩ := token
  cases kind with
  | text body =>
    obtain rfl := Except.ok.inj h
    rfl
  | comment body =>
    obtain rfl := Except.ok.inj h
    rfl
  | raw body =>
    obtain rfl := Except.ok.inj h
    rfl
  | closing name =>
    obtain rfl := Except.ok.inj h
    rfl
  | opening tag =>
    obtain ⟨call, hcall, rfl⟩ := map_eq_ok.1 h
    exact map_eq_ok.2 ⟨_, Call.ofTag_moveLines hcall d, rfl⟩
  | partialTag tag =>
    obtain ⟨piece, hpiece, rfl⟩ := map_eq_ok.1 h
    exact map_eq_ok.2 ⟨_, ofPartialTag_moveLines hpiece d, rfl⟩
  | output tag escaped =>
    simp only [ofToken?, Token.moveLines] at h ⊢
    split at h
    · next hname =>
      rw [if_pos hname]
      obtain ⟨condition, hcondition, rfl⟩ := map_eq_ok.1 h
      exact map_eq_ok.2 ⟨condition, elseCondition_line hcondition _, rfl⟩
    · next hname =>
      rw [if_neg hname]
      obtain ⟨call, hcall, rfl⟩ := map_eq_ok.1 h
      exact map_eq_ok.2 ⟨_, Call.ofTag_moveLines hcall d, rfl⟩

end Piece

end Stencil
