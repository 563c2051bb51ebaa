import Stencil.Template.Param

/-!
# Pieces

A template in a row: each tag by itself, with its words read, and no nesting yet. A piece is
what a token means; the nodes of a tree are pieces with other pieces between them.

## Main definitions

* `Piece` - the meaning of a token
* `Piece.ofToken?` - reads the words of a token; comments mean nothing
* `Piece.OfToken` - the ways in which it does so
* `Node.pieces` - the pieces of a tree in their order
* `Piece.joinTexts` - a row in which neighbouring texts are one
-/

namespace Stencil

/-- The meaning of a token. -/
inductive Piece where
  | text (body : String)
  | raw (body : String)
  | output (call : Call) (escaped : Bool)
  | opening (call : Call)
  | elseMark (condition : Option Param)
  | closing (name : String)
  | partialTag (name : String) (context : Option Param) (line : Nat)

namespace Piece

/-- The condition of an `else` tag: none, or the one argument of `elseif` and `else if`. -/
def elseCondition (line : Nat) (tag : Tag) : Except Error (Option Param) :=
  if tag.hash ≠ [] then .error (.parse line .elseHash)
  else
    let ofArgs (args : List String) : Except Error (Option Param) :=
      match args with
      | [arg] => (Param.parse line arg.toList).map some
      | _ => .error (.parse line .elseifArguments)
    if tag.name = "else" then
      match tag.args with
      | [] => .ok none
      | keyword :: args =>
        if keyword = "if" then ofArgs args else .error (.parse line .elseArguments)
    else ofArgs tag.args

/-- The piece of a partial tag. Its name may stand in quotation marks. -/
def ofPartialTag (line : Nat) (tag : Tag) : Except Error Piece := do
  if 1 < tag.args.length ∨ tag.hash ≠ [] then throw (.parse line (.partialArguments tag.name))
  let name := (unquote? tag.name.toList).getD tag.name.toList
  let context ← match tag.args with
    | [] => pure none
    | arg :: _ => (Param.parse line arg.toList).map some
  return .partialTag (String.ofList name) context line

/-- The meaning of a token. Comments mean nothing. -/
def ofToken? (token : Token) : Except Error (Option Piece) :=
  match token.kind with
  | .text body => .ok (some (.text body))
  | .comment _ => .ok none
  | .raw body => .ok (some (.raw body))
  | .output tag escaped =>
    if tag.name = "else" ∨ tag.name = "elseif" then
      (elseCondition token.line tag).map fun condition => some (.elseMark condition)
    else (Call.ofTag token.line tag).map fun call => some (.output call escaped)
  | .opening tag => (Call.ofTag token.line tag).map fun call => some (.opening call)
  | .closing name => .ok (some (.closing name))
  | .partialTag tag => (ofPartialTag token.line tag).map some

/-- A row of pieces in which neighbouring texts are one. -/
def joinTexts : List Piece → List Piece
  | [] => []
  | .text a :: pieces =>
    match joinTexts pieces with
    | .text b :: rest => .text (a ++ b) :: rest
    | rest => .text a :: rest
  | piece :: pieces => piece :: joinTexts pieces

/-! ### What is read -/

variable {line : Nat} {tag : Tag}

/-- An `else` tag is read if it stands alone, or with one condition behind `if`; an `elseif` tag is
read with one condition. -/
theorem elseCondition_eq_ok {condition : Option Param} :
    elseCondition line tag = .ok condition ↔
      tag.hash = [] ∧ ((tag.name = "else" ∧ tag.args = [] ∧ condition = none) ∨
        ∃ arg param, (tag.name = "else" ∧ tag.args = ["if", arg] ∨
            tag.name ≠ "else" ∧ tag.args = [arg]) ∧
          Param.parse line arg.toList = .ok param ∧ condition = some param) := by
  obtain ⟨name, args, hash⟩ := tag
  unfold elseCondition
  by_cases hhash : hash = []
  · by_cases hname : name = "else"
    · rcases args with _ | ⟨keyword, args⟩
      · simp [hhash, hname, @eq_comm _ none]
      · by_cases hkeyword : keyword = "if"
        · rcases args with _ | ⟨arg, _ | ⟨other, args⟩⟩
          · simp [hhash, hname, hkeyword]
          · simp [hhash, hname, hkeyword, map_eq_ok, @eq_comm _ _ condition]
          · simp [hhash, hname, hkeyword]
        · simp [hhash, hname, hkeyword]
    · rcases args with _ | ⟨arg, _ | ⟨other, args⟩⟩
      · simp [hhash, hname]
      · simp [hhash, hname, map_eq_ok, @eq_comm _ _ condition]
      · simp [hhash, hname]
  · simp [hhash]

/-- A partial tag is read with one context or none. -/
theorem ofPartialTag_eq_ok {piece : Piece} :
    ofPartialTag line tag = .ok piece ↔
      tag.hash = [] ∧ ∃ context, (tag.args = [] ∧ context = none ∨
        ∃ arg param, tag.args = [arg] ∧ Param.parse line arg.toList = .ok param ∧
          context = some param) ∧
        piece = .partialTag (String.ofList ((unquote? tag.name.toList).getD tag.name.toList))
          context line := by
  obtain ⟨name, args, hash⟩ := tag
  rw [ofPartialTag]
  by_cases hhash : hash = []
  · rcases args with _ | ⟨arg, _ | ⟨other, args⟩⟩
    · simp [hhash, pure, Except.pure, bind, Except.bind, @eq_comm _ _ piece]
    · simp [hhash, bind_eq_ok, map_eq_ok, pure, Except.pure, @eq_comm _ _ piece,
        @eq_comm _ (some _)]
    · simp [hhash, throw, throwThe, MonadExceptOf.throw, bind, Except.bind]
  · simp [hhash, throw, throwThe, MonadExceptOf.throw, bind, Except.bind]

/-- How a piece comes from a token of the given kind. -/
inductive OfToken (line : Nat) : TokenKind → Piece → Prop where
  | text (body : String) : OfToken line (.text body) (.text body)
  | raw (body : String) : OfToken line (.raw body) (.raw body)
  | closing (name : String) : OfToken line (.closing name) (.closing name)
  | opening {tag : Tag} {call : Call} (h : Call.ofTag line tag = .ok call) :
      OfToken line (.opening tag) (.opening call)
  | output {tag : Tag} {escaped : Bool} {call : Call}
      (hname : tag.name ≠ "else" ∧ tag.name ≠ "elseif") (h : Call.ofTag line tag = .ok call) :
      OfToken line (.output tag escaped) (.output call escaped)
  | elseMark {tag : Tag} {escaped : Bool} {condition : Option Param}
      (h : elseCondition line tag = .ok condition) :
      OfToken line (.output tag escaped) (.elseMark condition)
  | partialTag {tag : Tag} {name : String} {context : Option Param}
      (h : ofPartialTag line tag = .ok (.partialTag name context line)) :
      OfToken line (.partialTag tag) (.partialTag name context line)

/-- A piece is read in one of these ways. -/
theorem ofToken_of_ofToken? {token : Token} {piece : Piece}
    (h : ofToken? token = .ok (some piece)) : OfToken token.line token.kind piece := by
  obtain ⟨kind, line⟩ := token
  cases kind with
  | text body =>
    obtain rfl := Option.some.inj (Except.ok.inj h)
    exact .text body
  | comment body => cases Except.ok.inj h
  | raw body =>
    obtain rfl := Option.some.inj (Except.ok.inj h)
    exact .raw body
  | closing name =>
    obtain rfl := Option.some.inj (Except.ok.inj h)
    exact .closing name
  | opening tag =>
    obtain ⟨call, hcall, hpiece⟩ := map_eq_ok.1 h
    obtain rfl := Option.some.inj hpiece
    exact .opening hcall
  | partialTag tag =>
    obtain ⟨piece', hpartial, hpiece⟩ := map_eq_ok.1 h
    obtain rfl := Option.some.inj hpiece
    obtain ⟨-, context, -, rfl⟩ := ofPartialTag_eq_ok.1 hpartial
    exact .partialTag hpartial
  | output tag escaped =>
    simp only [ofToken?] at h
    split at h
    · obtain ⟨condition, hcondition, hpiece⟩ := map_eq_ok.1 h
      obtain rfl := Option.some.inj hpiece
      exact .elseMark hcondition
    · next hname =>
      obtain ⟨call, hcall, hpiece⟩ := map_eq_ok.1 h
      obtain rfl := Option.some.inj hpiece
      exact .output (not_or.1 hname) hcall

/-- Only comments mean nothing. -/
theorem kind_of_ofToken? {token : Token} (h : ofToken? token = .ok none) :
    ∃ body, token.kind = .comment body := by
  obtain ⟨kind, line⟩ := token
  cases kind with
  | comment body => exact ⟨body, rfl⟩
  | output tag escaped =>
    simp only [ofToken?] at h
    split at h
    · obtain ⟨condition, -, hpiece⟩ := map_eq_ok.1 h
      cases hpiece
    · obtain ⟨call, -, hpiece⟩ := map_eq_ok.1 h
      cases hpiece
  | opening tag =>
    obtain ⟨call, -, hpiece⟩ := map_eq_ok.1 h
    cases hpiece
  | partialTag tag =>
    obtain ⟨piece, -, hpiece⟩ := map_eq_ok.1 h
    cases hpiece
  | _ => cases Except.ok.inj h

end Piece

mutual

/-- The pieces of a node in their order. -/
def Node.pieces : Node → List Piece
  | .text body => [.text body]
  | .raw body => [.raw body]
  | .output call escaped => [.output call escaped]
  | .inline call => [.opening call]
  | .block call branches => .opening call :: branchesPieces true branches ++ [.closing call.name]
  | .partialTag name context line => [.partialTag name context line]

/-- The pieces of a list of nodes. -/
def nodesPieces : List Node → List Piece
  | [] => []
  | node :: nodes => node.pieces ++ nodesPieces nodes

/-- The pieces of the branches of a block. In front of each branch but the first stands
its `else` tag. -/
def branchesPieces (isFirst : Bool) : List (Branch Node) → List Piece
  | [] => []
  | ⟨condition, body⟩ :: branches =>
    (if isFirst then [] else [.elseMark condition]) ++ nodesPieces body ++
      branchesPieces false branches

end

end Stencil
