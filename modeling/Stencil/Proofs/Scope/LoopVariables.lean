import Stencil.Proofs.Helper.Turns
import Stencil.Proofs.Path.Spelling
import Stencil.Proofs.Scope.Resolution

/-!
# The variables of enclosing loops

A path with the mark of data variables and steps outwards is answered by one frame. If the frames
are those of turns of loops inside of each other, this is the turn that many loops out; there is
none behind the outermost one.

## Main definitions

* `loopVariable` - the text of a path to a variable of an enclosing loop
* `Turn` - a turn of a loop over a value, and `Turn.vars`, its variables
* `Scope.HasTurns` - a scope whose frames are those of turns

Main statements: `Path.parse_loopVariable`, `Scope.HasTurns.lookup?_eq`.
-/

namespace Stencil

open Text

/-! ### Texts -/

/-- The names of the variables of a loop. -/
def LoopVars.names : List String :=
  ["index", "first", "last", "key"]

/-- The text of a variable of an enclosing loop: the mark of data variables, steps outwards, and the
name. -/
def loopVariable (steps : Nat) (name : String) : String :=
  String.ofList ('@' :: (List.replicate steps ['.', '.', '/']).flatten ++ name.toList)

namespace Path

theorem read_loopVariable {name : String} (hname : name ∈ LoopVars.names) (steps : Nat) :
    read (loopVariable steps name).toList =
      .ok ⟨loopVariable steps name, true, steps, [name], none⟩ := by
  have hparts : name.toList ≠ [] ∧ name.toList.head? ≠ some '@' ∧
      takeSteps name.toList = (0, name.toList) ∧
      takeSlice name.toList = .ok (name.toList, none) ∧
      readSegments (dropThis name.toList) = .ok [name] := by
    fin_cases hname
    · exact ⟨by decide, by decide, rfl, rfl, rfl⟩
    · exact ⟨by decide, by decide, rfl, rfl, rfl⟩
    · exact ⟨by decide, by decide, rfl, rfl, rfl⟩
    · exact ⟨by decide, by decide, rfl, rfl, rfl⟩
  obtain ⟨hne, hmark, hsteps, hslice, hsegments⟩ := hparts
  have hread : read (lead true steps ++ name.toList) = _ :=
    read_lead hne hmark hsteps hslice hsegments fun _ => List.cons_ne_nil _ _
  rw [loopVariable, String.toList_ofList]
  exact hread

/-- The text is read as a path with these steps and this name. -/
theorem parse_loopVariable {name : String} (hname : name ∈ LoopVars.names) (steps line : Nat) :
    Path.parse line (loopVariable steps name).toList =
      .ok ⟨loopVariable steps name, true, steps, [name], none⟩ := by
  obtain ⟨last, hlast, hblank⟩ : ∃ c, name.toList.getLast? = some c ∧ ¬ isBlank c := by
    fin_cases hname
    · exact ⟨'x', rfl, by decide⟩
    · exact ⟨'t', rfl, by decide⟩
    · exact ⟨'t', rfl, by decide⟩
    · exact ⟨'y', rfl, by decide⟩
  have htrim : trim (loopVariable steps name).toList = (loopVariable steps name).toList := by
    rw [loopVariable, String.toList_ofList]
    refine trim_eq_self ?_ ?_
    · intro c hc
      obtain rfl := Option.some.inj hc
      decide
    · rw [List.getLast?_append, hlast]
      intro c hc
      obtain rfl := Option.some.inj hc
      exact hblank
  rw [Path.parse, htrim, read_loopVariable hname]

end Path

/-! ### Turns -/

/-- A turn of a loop: what is iterated, and the position of the turn. -/
structure Turn where
  collection : Value
  position : Nat

/-- The variables of a turn while data variables are enabled. -/
def Turn.vars (turn : Turn) : LoopVars :=
  LoopVars.iteration turn.position turn.collection.elements.length
    (turn.collection.keyAt? turn.position) true

namespace Scope

/-- The frames above the whole data are those of the turns, and data variables are enabled. -/
structure HasTurns (s : Scope) (turns : List Turn) : Prop where
  enabled : s.dataVariables = true
  vars : s.inner.map Frame.vars = turns.map fun turn => some turn.vars

variable {s : Scope} {turns : List Turn}

theorem hasTurns_ofRoot (data : Value) : (ofRoot data true).HasTurns [] :=
  ⟨rfl, rfl⟩

theorem HasTurns.push (h : s.HasTurns turns) {turn : Turn} {frame : Frame}
    (hframe : frame.vars = some turn.vars) : (s.push frame).HasTurns (turn :: turns) :=
  ⟨h.enabled, by rw [Scope.push, List.map_cons, List.map_cons, hframe, h.vars]⟩

/-- The variables of the frame a number of steps outwards. -/
theorem HasTurns.vars_ancestor? (h : s.HasTurns turns) (steps : Nat) :
    (s.ancestor? steps).bind Frame.vars = turns[steps]?.map Turn.vars := by
  have hvars : s.turnVars = (turns.map fun turn => some turn.vars) ++ [none] := by
    rw [turnVars, frames, List.map_append, h.vars]
    rfl
  rw [← join_getElem?_turnVars, hvars]
  rcases Nat.lt_or_ge steps turns.length with hlt | hge
  · rw [List.getElem?_append_left (by rwa [List.length_map]), List.getElem?_map]
    cases turns[steps]? with
    | none => rfl
    | some turn => rfl
  · -- The whole data and what lies behind it have no variables.
    rw [List.getElem?_append_right (by rwa [List.length_map]), List.getElem?_eq_none hge]
    cases steps - (turns.map fun turn => some turn.vars).length with
    | zero => rfl
    | succ beyond => rfl

/-- A variable of a loop is that of the turn as many loops outwards as there are steps. -/
theorem HasTurns.lookup?_eq (h : s.HasTurns turns) {name : String} (hname : name ∈ LoopVars.names)
    (steps : Nat) :
    s.lookup? (loopVariable steps name) = (turns[steps]?).bind (·.vars.get? name) := by
  have hturn := h.vars_ancestor? steps
  rw [lookup?, Path.parse_loopVariable hname]
  show (s.resolveData? ⟨loopVariable steps name, true, steps, [name], none⟩).map _ = _
  unfold resolveData?
  cases hframe : s.ancestor? steps with
  | none =>
    rw [hframe] at hturn
    rw [Option.map_eq_none_iff.1 hturn.symm]
    rfl
  | some frame =>
    rw [hframe] at hturn
    have hvars : frame.vars.bind (·.get? name) = turns[steps]?.bind (·.vars.get? name) := by
      rw [show frame.vars = turns[steps]?.map Turn.vars from hturn, Option.bind_map]
      rfl
    simp only [Option.bind_eq_bind, Option.bind_some, hvars, h.enabled, if_true]
    cases turns[steps]?.bind (·.vars.get? name) with
    | none => rfl
    | some value => rfl

end Scope

end Stencil
