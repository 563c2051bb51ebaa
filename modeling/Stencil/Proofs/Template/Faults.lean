import Stencil.Proofs.Token.TagStarts
import Stencil.Template.Assembly

/-!
# Where reading a template fails

Every reader below the scanner is given the line of a tag, and if it fails then with a fault on
this line. Reading a template therefore fails in no other way than with a fault of its text.

## Main definitions

* `FailsAt`, `FailsByFault` - a reader that fails with a fault on the given line, or on some line,
  if it fails

Main statement: `Template.failsByFault_parse`.
-/

namespace Stencil

variable {α : Type} {line : Nat}

/-- If a reader fails, then with a fault on the given line. -/
abbrev FailsAt (line : Nat) : Except Error α → Prop :=
  FailsWith fun e => ∃ fault, e = .parse line fault

theorem FailsAt.error (fault : SyntaxFault) :
    FailsAt line (.error (.parse line fault) : Except Error α) :=
  FailsWith.error ⟨fault, rfl⟩

/-- If a reader fails, then with a fault on some line. -/
abbrev FailsByFault : Except Error α → Prop :=
  FailsWith fun e => ∃ line fault, e = .parse line fault

theorem FailsAt.failsByFault {x : Except Error α} (h : FailsAt line x) : FailsByFault x :=
  h.mono fun _ he => ⟨line, he⟩

/-! ### Tags -/

theorem Tag.failsAt_read (line : Nat) (content : List Char) :
    FailsAt line (Tag.read line content) := by
  unfold Tag.read
  split
  · exact .error _
  · exact .error _
  · exact .ok _

namespace Token

theorem failsAt_readKind (line : Nat) (content : List Char) :
    FailsAt line (readKind line content) := by
  unfold readKind
  split
  · exact (Tag.failsAt_read line _).map _
  · split
    · exact .error _
    · exact .ok _
  · exact (Tag.failsAt_read line _).map _
  · exact (Tag.failsAt_read line _).map _
  · exact (Tag.failsAt_read line _).map _

theorem failsAt_takeComment (line : Nat) (split : Option (List Char × List Char)) :
    FailsAt line (takeComment line split) := by
  cases split with
  | none => exact .error _
  | some parts => exact .ok _

theorem failsAt_takeTag (line : Nat) (text : List Char) : FailsAt line (takeTag line text) := by
  unfold takeTag
  split
  · split
    · exact .error _
    · exact .bind (Tag.failsAt_read line _) fun _ => .ok _
  · exact failsAt_takeComment line _
  · exact failsAt_takeComment line _
  · split
    · exact .error _
    · exact .bind (failsAt_readKind line _) fun _ => .ok _

/-- A tag at which the scanner stops is at fault itself: it cannot be read, or it opens a raw block
that is not closed. -/
theorem Unreadable.exists_fault {body : List Char} {e : Error} (h : Unreadable line body e) :
    ∃ fault, e = .parse line fault := by
  cases h with
  | tag htag => exact failsAt_takeTag line body e htag
  | raw => exact ⟨.unclosedRaw, rfl⟩

/-- The scanner fails at a tag. -/
theorem failsByFault_scanFrom (line : Nat) (text : List Char) :
    FailsByFault (scanFrom line text) := by
  intro e h
  obtain ⟨front, body, -, hstops⟩ := exists_unreadable_of_scanFrom line text e h
  exact ⟨_, hstops.exists_fault⟩

end Token

/-! ### Words -/

theorem Path.failsAt_parse (line : Nat) (text : List Char) :
    FailsAt line (Path.parse line text) := by
  unfold Path.parse
  split
  · exact .ok _
  · exact .error _

namespace Comparison

theorem failsAt_wordOperand (line : Nat) (word : List Char) :
    FailsAt line (wordOperand line word) := by
  unfold wordOperand
  split
  · exact .ok _
  · split
    · exact .ok _
    · split
      · exact .ok _
      · exact (Path.failsAt_parse line word).map _

theorem failsAt_readOperand (line : Nat) (text : List Char) :
    FailsAt line (readOperand line text) := by
  unfold readOperand
  split
  · exact .error _
  · split
    · split
      · exact .error _
      · exact .ok _
    · dsimp only
      split
      · exact .error _
      · exact .bind (failsAt_wordOperand line _) fun _ => .ok _

theorem failsAt_readOperator (line : Nat) (text : List Char) :
    FailsAt line (readOperator line text) := by
  unfold readOperator
  dsimp only
  split
  · exact .ok _
  · exact .error _

theorem failsAt_parse (line : Nat) (text : List Char) : FailsAt line (parse line text) := by
  refine .bind (failsAt_readOperand line text) fun left => ?_
  refine .bind (failsAt_readOperator line _) fun op => ?_
  refine .bind (failsAt_readOperand line _) fun right => ?_
  dsimp only
  split
  · exact .ok _
  · exact FailsAt.error (.trailing _ _)

end Comparison

theorem Param.failsAt_parse (line : Nat) (text : List Char) :
    FailsAt line (Param.parse line text) := by
  unfold Param.parse
  split
  · exact (Comparison.failsAt_parse line _).map _
  · split
    · exact .ok _
    · split
      · exact .ok _
      · exact (Path.failsAt_parse line text).map _

theorem Call.failsAt_ofTag (line : Nat) (tag : Tag) : FailsAt line (Call.ofTag line tag) := by
  refine .bind (Path.failsAt_parse line _) fun path => ?_
  refine .bind (.mapM (fun arg => Param.failsAt_parse line _) _) fun params => ?_
  refine .bind (.mapM (fun pair => ?_) _) fun hash => .ok _
  exact .bind (Param.failsAt_parse line _) fun _ => .ok _

/-! ### Pieces and trees -/

namespace Piece

/-- An `elseif` with the right number of arguments, or another one. -/
theorem failsAt_elseifArguments (line : Nat) (args : List String) :
    FailsAt line (match args with
      | [arg] => (Param.parse line arg.toList).map some
      | _ => .error (.parse line .elseifArguments) : Except Error (Option Param)) := by
  split
  · exact (Param.failsAt_parse line _).map _
  · exact .error _

theorem failsAt_elseCondition (line : Nat) (tag : Tag) : FailsAt line (elseCondition line tag) := by
  unfold elseCondition
  split
  · exact .error _
  · dsimp only
    split
    · split
      · exact .ok _
      · split
        · exact failsAt_elseifArguments line _
        · exact .error _
    · exact failsAt_elseifArguments line _

theorem failsAt_ofPartialTag (line : Nat) (tag : Tag) : FailsAt line (ofPartialTag line tag) := by
  rw [ofPartialTag]
  by_cases hargs : 1 < tag.args.length ∨ tag.hash ≠ []
  · rw [if_pos hargs]
    exact .error (.partialArguments tag.name)
  · rw [if_neg hargs]
    split
    · exact .ok _
    · exact .bind ((Param.failsAt_parse line _).map _) fun _ => .ok _

theorem failsAt_ofToken? (token : Token) : FailsAt token.line (ofToken? token) := by
  unfold ofToken?
  split
  · exact .ok _
  · exact .ok _
  · exact .ok _
  · split
    · exact (failsAt_elseCondition _ _).map _
    · exact (Call.failsAt_ofTag _ _).map _
  · exact (Call.failsAt_ofTag _ _).map _
  · exact .ok _
  · exact (failsAt_ofPartialTag _ _).map _

end Piece

namespace Assembly

theorem failsAt_nextBranch (a : Assembly) (line : Nat) (condition : Option Param) :
    FailsAt line (a.nextBranch line condition) := by
  unfold nextBranch
  split
  · exact .error _
  · split
    · exact .error _
    · split
      · exact .error _
      · exact .ok _

theorem failsAt_closeBlock (a : Assembly) (line : Nat) (name : String) :
    FailsAt line (a.closeBlock line name) := by
  unfold closeBlock
  split
  · exact .error _
  · split
    · exact .error _
    · exact .ok _

theorem failsAt_place (a : Assembly) (line position : Nat) (paired : Bool) (piece : Piece) :
    FailsAt line (a.place line position paired piece) := by
  cases piece with
  | text body => exact .ok _
  | raw body => exact .ok _
  | output call escaped => exact .ok _
  | opening call =>
    dsimp only [place]
    split
    · exact .ok _
    · split
      · exact .error _
      · exact .ok _
  | elseMark condition => exact failsAt_nextBranch a line condition
  | closing name => exact failsAt_closeBlock a line name
  | partialTag name context line => exact .ok _

/-- A token that cannot be taken up is at fault itself. -/
theorem failsAt_step (opens : List Nat) (a : Assembly) (entry : Token × Nat) :
    FailsAt entry.1.line (step opens a entry) := by
  refine .bind (Piece.failsAt_ofToken? entry.1) fun piece? => ?_
  cases piece? with
  | none => exact .ok _
  | some piece => exact failsAt_place a _ _ _ piece

/-- What is wrong with a finished row of tokens is that a block has been left open. -/
theorem failsByFault_finish (a : Assembly) : FailsByFault a.finish := by
  unfold finish
  split
  · exact .ok _
  · exact (FailsAt.error _).failsByFault

end Assembly

/-- A text that has no tree has a fault on some line; no other error comes of reading it. -/
theorem Template.failsByFault_parse (source : String) : FailsByFault (Template.parse source) := by
  refine .bind (Token.failsByFault_scanFrom 1 source.toList) fun tokens => ?_
  refine .bind (.foldlM (fun a entry => ?_) _ _) fun a => Assembly.failsByFault_finish a
  exact (Assembly.failsAt_step (Token.pairedOpens tokens) a entry).failsByFault

end Stencil
