import Stencil.Proofs.Path.Slices
import Stencil.Proofs.Scope.Resolution

/-!
# What a name with the mark depends on

A frame can answer a name with the mark of data variables in two ways: by the variables of its loop,
and by a field of its value whose name starts with the mark. While data variables are disabled,
comparisons know fields only, so the variables of loops do not count for them. While data variables
are enabled, nobody knows such fields, so the values of the frames do not count.

Main statements: `Scope.operandValue_of_disabled`, `Scope.resolveData?_of_enabled`,
`Scope.mark_independent`.
-/

namespace Stencil

open Text

namespace Path

/-- A text with the mark in front of it is read as a path with the mark. -/
theorem data_of_parse {line : Nat} {text : List Char} {p : Path} (h : Path.parse line text = .ok p)
    (hmark : (trim text).head? = some '@') : p.data = true := by
  obtain ⟨rest, hrest⟩ := List.head?_eq_some_iff.1 hmark
  rw [parse_eq_ok, hrest, read_mark, readParts_eq_ok] at h
  obtain ⟨front, slice, segments, -, -, -, rfl⟩ := h
  rfl

end Path

namespace Scope

variable {s s' : Scope} {p : Path}

/-! ### Fields with the mark -/

/-- A field with the mark is one of the value of the frame that the steps lead to. -/
theorem resolveDataField?_eq (s : Scope) (p : Path) :
    s.resolveDataField? p = s.values[p.depth]?.bind fun value =>
      match p.segments with
      | [] => none
      | name :: names => (value.field? ("@" ++ name)).bind (·.walk? names) := by
  rw [getElem?_values, Option.bind_map]
  rfl

/-- While data variables are disabled, an operand is answered from the values of the frames. -/
theorem operandValue_of_disabled (hs : s.dataVariables = false) (operand : Operand) :
    s.operandValue operand =
      match operand with
      | .str text => .str text
      | .number text => .str text
      | .path p =>
        ((if p.data then s.resolveDataField? p else s.resolveName? p).map (sliced p)).getD .null := by
  cases operand with
  | str text => rfl
  | number text => rfl
  | path p =>
    cases hdata : p.data with
    | true => simp [operandValue, hdata, hs]
    | false => simp [operandValue, resolve?, hdata]

theorem operandValue_eq_of_values (hs : s.dataVariables = false) (hs' : s'.dataVariables = false)
    (hvalues : s'.values = s.values) (operand : Operand) :
    s'.operandValue operand = s.operandValue operand := by
  rw [operandValue_of_disabled hs, operandValue_of_disabled hs']
  cases operand with
  | str text => rfl
  | number text => rfl
  | path p =>
    cases hdata : p.data with
    | true => simp only [hdata, if_true, resolveDataField?_eq, hvalues]
    | false => simp only [hdata, Bool.false_eq_true, if_false, resolveName?_eq _ hdata, hvalues]

/-! ### Variables of loops -/

/-- While data variables are enabled, a name with the mark is a variable of the loop of the frame
that the steps lead to, and nothing else. -/
theorem resolveData?_of_enabled (hs : s.dataVariables = true) (p : Path) :
    s.resolveData? p = s.turnVars[p.depth]?.join.bind fun vars =>
      match p.segments with
      | [] => none
      | name :: names => (vars.get? name).bind (·.walk? names) := by
  rw [join_getElem?_turnVars, resolveData?]
  cases s.ancestor? p.depth with
  | none => rfl
  | some frame =>
    obtain ⟨value, vars⟩ := frame
    cases p.segments with
    | nil => cases vars <;> rfl
    | cons name names =>
      cases vars with
      | none => simp [hs]
      | some vars =>
        simp only [Option.bind_eq_bind, Option.bind_some, hs, if_true]
        cases vars.get? name <;> rfl

theorem resolve?_eq_of_turnVars (hs : s.dataVariables = true) (hs' : s'.dataVariables = true)
    (hvariables : s'.turnVars = s.turnVars) (hp : p.data = true) :
    s'.resolve? p = s.resolve? p := by
  rw [resolve?, resolve?, if_pos hp, if_pos hp, resolveData?_of_enabled hs,
    resolveData?_of_enabled hs', hvariables]

/-! ### The two settings -/

/-- **What a name with the mark depends on.** While data variables are disabled, two scopes with the
same values in their frames give every comparison the same outcome, whatever variables of loops
these frames have; so does every text that is read as a comparison. While data variables are
enabled, two scopes with the same variables of loops in their frames answer every path with the mark
in the same way, with or without its slice, as an operand, as an argument, and as a text, whatever
values these frames have. -/
theorem mark_independent :
    (∀ s s' : Scope, s.dataVariables = false → s'.dataVariables = false → s'.values = s.values →
      (∀ c : Comparison, s'.holds c = s.holds c) ∧ ∀ text, s'.evaluate text = s.evaluate text) ∧
    ∀ s s' : Scope, s.dataVariables = true → s'.dataVariables = true →
      s'.turnVars = s.turnVars →
        (∀ p : Path, p.data = true →
          s'.resolve? p = s.resolve? p ∧ s'.resolveSliced? p = s.resolveSliced? p ∧
          s'.operandValue (.path p) = s.operandValue (.path p) ∧
          s'.resolveParam (.path p) = s.resolveParam (.path p)) ∧
        ∀ text : String, (trim text.toList).head? = some '@' →
          s'.lookup? text = s.lookup? text := by
  refine ⟨fun s s' hs hs' hvalues => ?_, fun s s' hs hs' hvariables => ?_⟩
  · have hholds (c : Comparison) : s'.holds c = s.holds c := by
      rw [holds, holds, operandValue_eq_of_values hs hs' hvalues,
        operandValue_eq_of_values hs hs' hvalues]
    refine ⟨hholds, fun text => ?_⟩
    rw [evaluate, evaluate, funext hholds]
  · have hresolve {p : Path} (hp : p.data = true) : s'.resolve? p = s.resolve? p :=
      resolve?_eq_of_turnVars hs hs' hvariables hp
    have hsliced {p : Path} (hp : p.data = true) : s'.resolveSliced? p = s.resolveSliced? p :=
      congrArg (Option.map (sliced p)) (hresolve hp)
    refine ⟨fun p hp => ⟨hresolve hp, hsliced hp, ?_, ?_⟩, fun text hmark => ?_⟩
    · simp only [operandValue, hs, hs', hp, Bool.not_true, Bool.and_false, Bool.false_eq_true,
        if_false, hresolve hp]
    · exact congrArg (·.getD Value.null) (hsliced hp)
    · unfold lookup?
      cases hparse : Path.parse 0 text.toList with
      | error e => rfl
      | ok p => exact hsliced (Path.data_of_parse hparse hmark)

/-- A field named like a variable of a loop: it decides a comparison while data variables are
disabled, in any turn of the loop, and while they are enabled the turn further out is all that
counts. -/
theorem mark_independent_index :
    let item (fields : List (String × Value)) (turn : Nat) (enabled : Bool) : Frame :=
      ⟨.map fields, some (LoopVars.iteration turn 2 none enabled)⟩
    let seven : List (String × Value) := [("@index", .int 7)]
    let disabled (turn : Nat) : Scope := ⟨[item seven turn false], .null, false⟩
    let enabled (fields : List (String × Value)) : Scope :=
      ⟨[item fields 0 true, item fields 1 true], .map fields, true⟩
    let index : Path := ⟨"@index", true, 0, ["index"], none⟩
    let outer : Path := ⟨"@../index", true, 1, ["index"], none⟩
    let c : Comparison := ⟨.path index, .eq, .number "7"⟩
    ((disabled 0).holds c = true ∧ (disabled 1).holds c = true) ∧
      (enabled []).resolve? outer = some (Value.ofNat 1) ∧
        (enabled seven).resolve? outer = some (Value.ofNat 1) := by
  intro item seven disabled enabled index outer c
  obtain ⟨hvalues, hvariables⟩ := mark_independent
  have hfirst : (disabled 0).holds c = true := by decide +kernel
  have hsecond := (hvalues (disabled 0) (disabled 1) rfl rfl rfl).1 c
  have houter : (enabled []).resolve? outer = some (Value.ofNat 1) := rfl
  have hfields := ((hvariables (enabled []) (enabled seven) rfl rfl rfl).1 outer rfl).1
  exact ⟨⟨hfirst, hsecond.trans hfirst⟩, houter, hfields.trans houter⟩

end Scope

end Stencil
