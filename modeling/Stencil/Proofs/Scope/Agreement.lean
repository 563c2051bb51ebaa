import Stencil.Proofs.Scope.Resolution
import Stencil.Proofs.Template.Paths

/-!
# Scopes that answer the same

Two scopes may differ in their frames and still answer some paths in the same way: those of which
one has a frame more that lacks their first names, or those without the mark of data variables if
only the variables of loops differ. They go on to do so whatever is entered in both.

## Main definitions

* `Scope.AgreeOn` - two scopes that answer paths with a property in the same way
* `Path.IsPlain` - a path without the mark of data variables
* `Path.IsName` - a path that starts with a name
* `Path.Skips` - a path that a value does not answer

Main statements: `Scope.AgreeOn.of_values`, `Scope.agreeOn_push`, `Scope.AgreeOn.resolveParam`.
-/

namespace Stencil

namespace Path

/-- A path without the mark of data variables. -/
def IsPlain (p : Path) : Prop :=
  p.data = false

instance (p : Path) : Decidable p.IsPlain :=
  inferInstanceAs (Decidable (p.data = false))

/-- A path that starts with a name: it has no mark of data variables, no steps outwards, and does
not mean the current value. -/
def IsName (p : Path) : Prop :=
  p.IsPlain ∧ p.depth = 0 ∧ p.segments ≠ []

instance (p : Path) : Decidable p.IsName :=
  inferInstanceAs (Decidable (_ ∧ _ ∧ _))

/-- A path that starts with a name which is no field of a value. -/
def Skips (p : Path) (value : Value) : Prop :=
  p.IsName ∧ ∀ name ∈ p.segments.head?, value.field? name = none

end Path

namespace Scope

/-! ### Arguments -/

section Arguments

variable {s s' : Scope}

/-- Without the mark an operand is looked up like any other path. -/
theorem operandValue_congr {operand : Operand}
    (h : ∀ p ∈ operand.paths, p.IsPlain ∧ s'.resolve? p = s.resolve? p) :
    s'.operandValue operand = s.operandValue operand := by
  cases operand with
  | str text => rfl
  | number text => rfl
  | path p =>
    obtain ⟨hplain, hanswer⟩ := h p (.head _)
    have hdata : p.data = false := hplain
    simp only [operandValue, hdata, Bool.false_and, Bool.false_eq_true, if_false, hanswer]

theorem holds_congr {c : Comparison}
    (h : ∀ p ∈ c.paths, p.IsPlain ∧ s'.resolve? p = s.resolve? p) : s'.holds c = s.holds c := by
  have hleft := operandValue_congr fun p hp => h p (List.mem_append_left _ hp)
  have hright := operandValue_congr fun p hp => h p (List.mem_append_right _ hp)
  rw [holds, holds, hleft, hright]

/-- The value of an argument depends on nothing but the answers to its paths. -/
theorem resolveParam_congr {param : Param}
    (h : ∀ p ∈ param.paths, p.IsPlain ∧ s'.resolve? p = s.resolve? p) :
    s'.resolveParam param = s.resolveParam param := by
  cases param with
  | literal constant => rfl
  | comparison c => exact congrArg Value.bool (holds_congr h)
  | path p =>
    have hanswer : s'.resolve? p = s.resolve? p := (h p (.head _)).2
    exact congrArg (fun found => (Option.map (sliced p) found).getD Value.null) hanswer

end Arguments

/-! ### Agreement -/

/-- The scope in which frames have been entered, the first one innermost. -/
def enterAll (s : Scope) (entered : List Frame) : Scope :=
  { s with inner := entered ++ s.inner }

/-- Two scopes with the same setting that answer all paths with a property in the same way, also
when the same frames have been entered in both. None of these paths has the mark of data
variables. -/
structure AgreeOn (Q : Path → Prop) (s s' : Scope) : Prop where
  setting : s'.dataVariables = s.dataVariables
  plain : ∀ {p}, Q p → p.IsPlain
  answer : ∀ (entered : List Frame) {p}, Q p →
    (s'.enterAll entered).resolve? p = (s.enterAll entered).resolve? p

variable {Q : Path → Prop} {s s' : Scope}

theorem enterAll_push (s : Scope) (frame : Frame) (entered : List Frame) :
    (s.push frame).enterAll entered = s.enterAll (entered ++ [frame]) := by
  simp [enterAll, push]

theorem values_enterAll (s : Scope) (entered : List Frame) :
    (s.enterAll entered).values = entered.map Frame.value ++ s.values := by
  simp [values, frames, enterAll]

/-- Scopes with the same values answer all paths without the mark in the same way. -/
theorem AgreeOn.of_values (hvalues : s'.values = s.values)
    (hsetting : s'.dataVariables = s.dataVariables) : AgreeOn Path.IsPlain s s' where
  setting := hsetting
  plain hp := hp
  answer entered _ hp := by
    refine resolve?_congr ?_ hp
    rw [values_enterAll, values_enterAll, hvalues]

/-- A frame is not noticed by paths that its value does not answer. -/
theorem agreeOn_push (s : Scope) (frame : Frame) :
    AgreeOn (·.Skips frame.value) s (s.push frame) where
  setting := rfl
  plain hp := hp.1.1
  answer entered p hp := by
    obtain ⟨⟨hdata, hsteps, hnil⟩, hlacks⟩ := hp
    obtain ⟨name, names, hsegments⟩ := List.exists_cons_of_ne_nil hnil
    have hfield : frame.value.field? name = none := hlacks name (by rw [hsegments]; rfl)
    rw [resolve?_of_name hdata hsteps hsegments, resolve?_of_name hdata hsteps hsegments,
      values_enterAll, values_enterAll, values_push, List.findSome?_append, List.findSome?_append,
      List.findSome?_cons, hfield]

namespace AgreeOn

/-- The same frame may be entered in both. -/
theorem push (h : AgreeOn Q s s') (frame : Frame) : AgreeOn Q (s.push frame) (s'.push frame) where
  setting := h.setting
  plain := h.plain
  answer entered p hp := by
    rw [enterAll_push, enterAll_push]
    exact h.answer _ hp

theorem same (h : AgreeOn Q s s') {p : Path} (hp : Q p) :
    p.IsPlain ∧ s'.resolve? p = s.resolve? p :=
  ⟨h.plain hp, h.answer [] hp⟩

theorem resolveSliced? (h : AgreeOn Q s s') {p : Path} (hp : Q p) :
    s'.resolveSliced? p = s.resolveSliced? p :=
  congrArg (Option.map (sliced p)) (h.answer [] hp)

theorem resolveParam (h : AgreeOn Q s s') {param : Param} (hpaths : ∀ p ∈ param.paths, Q p) :
    s'.resolveParam param = s.resolveParam param :=
  resolveParam_congr fun p hp => h.same (hpaths p hp)

end AgreeOn

end Scope

end Stencil
