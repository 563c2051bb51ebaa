import Mathlib
import Stencil.Proofs.Engine.Simulation
import Stencil.Proofs.Render.Errors
import Stencil.Proofs.Render.Termination

/-!
# What comes of a render

With the built-in helpers a render always ends, with a text or an error. There is one exception: a
date without a zone, written with its zone by `format_date`, is the end of the whole program.

## Main definitions

* `Engine.visits` - the places where nodes are rendered when an engine renders a template
* `Call.LacksZone` - a call of `format_date` that has to write a zone that is not there

Main statement: `Engine.renderValue_ends`.
-/

namespace Stencil

/-- Whether a call is one of `format_date` that has to write the zone of a date without one. -/
def Call.LacksZone (call : Call) (scope : Scope) : Prop :=
  call.name = "format_date" ∧
    Helper.formatDateHelper.run (call.invocation false scope) = .done (.error .missingZone)

namespace Render

/-- Whether one of the nodes that are rendered at a place is such a call. -/
def Visit.LacksZone (env : RenderEnv) (v : Visit) : Prop :=
  ∃ n ∈ v.executed env, ∃ call ∈ n.call?, call.LacksZone v.state.scope

variable {env : RenderEnv} {scope : Scope}

/-- The renderer itself never lacks a zone. -/
theorem ownErrors_ne_missingZone : OwnErrors (· ≠ Error.missingZone) where
  unknown _ := Error.noConfusion
  source := by
    rintro e he rfl
    exact he
  limit := Error.noConfusion

/-- Where no call lacks a zone, the built-in helpers come back. -/
theorem failsWith_of_not_lacksZone {program : Program String} {n : Node}
    (hhelpers : env.helpers = Registry.builtin) (hprogram : program ∈ nodeProgram? env scope n)
    (h : ∀ call ∈ n.call?, ¬ call.LacksZone scope) :
    program.FailsWith (· ≠ Error.missingZone) := by
  obtain ⟨call, hcall, helper, isBlock, hfind, rfl⟩ := exists_call_of_nodeProgram? hprogram
  rw [hhelpers] at hfind
  have hhelper : ∀ e : Error, e.OfHelper → e ≠ .missingZone := by
    rintro e he rfl
    exact he
  by_cases hname : call.name = "format_date"
  · rw [hname] at hfind
    obtain rfl : Helper.formatDateHelper = helper := Option.some.inj hfind
    refine .done fun e he => ?_
    rintro rfl
    exact h call hcall ⟨hname, congrArg Program.done he⟩
  · exact Helper.failsWith_builtin hhelper hfind hname _

end Render

namespace Engine

open Render

/-- The places where nodes are rendered when an engine renders a template by its name, on any level;
none if the template is not found or has no tree. -/
def visits (e : Engine) (name : String) (data : Value) : List Visit :=
  match e.loader.load name with
  | .error _ => []
  | .ok source =>
    match e.cache.compile source.source with
    | (.error _, _) => []
    | (.ok t, cache) => Render.visits e.renderEnv maxDepth t.nodes (e.start data cache)

theorem failsWith_renderValue {e : Engine} {P : Error → Prop} (hown : OwnErrors P) {name : String}
    {data : Value}
    (hprogram : ∀ v ∈ e.visits name data, ∀ n ∈ v.executed e.renderEnv,
      ∀ program ∈ nodeProgram? e.renderEnv v.state.scope n, program.FailsWith P) :
    FailsWith P (e.renderValue name data).1 := by
  unfold visits at hprogram
  cases hload : e.loader.load name with
  | error error =>
    simp only [renderValue, hload]
    exact .error (hown.source error (e.loader.failsWith_load name error hload))
  | ok source =>
    have hcompile := e.cache.failsWith_compile source.source
    cases htree : e.cache.compile source.source with
    | mk result cache =>
      rw [htree] at hcompile
      cases result with
      | error error =>
        rw [renderValue_eq_of_compile_error hload htree]
        exact .error (hown.source error (hcompile error rfl))
      | ok t =>
        rw [renderValue_eq hload htree]
        simp only [hload, htree] at hprogram
        exact failsWith_visits hown hprogram

/-- **Rendering ends.** From level to level the nodes that are rendered cannot lead on without end,
whatever partials and fragments there are, and the recursion over the levels has exactly one
solution, which is what a render computes. What comes of a render is a text or an error, unless a
call of `format_date` that is reached has to write the zone of a date without one. -/
theorem renderValue_ends (e : Engine) (name : String) (data : Value) :
    let e := { e with helpers := Registry.builtin }
    WellFounded (fun d' d => LeadsTo e.renderEnv d d') ∧
      (∀ f, Recurs e.renderEnv f ↔ f = nested e.renderEnv maxDepth) ∧
      ((∃ text, (e.renderValue name data).1 = .ok text) ∨
        (∃ error, error ≠ .missingZone ∧ (e.renderValue name data).1 = .error error) ∨
        (e.renderValue name data).1 = .error .missingZone ∧
          ∃ v ∈ e.visits name data, v.LacksZone e.renderEnv) := by
  intro e
  refine ⟨wellFounded_leadsTo e.renderEnv, fun f => recurs_iff, ?_⟩
  cases hresult : (e.renderValue name data).1 with
  | ok text => exact .inl ⟨text, rfl⟩
  | error error =>
    by_cases hzone : ∃ v ∈ e.visits name data, v.LacksZone e.renderEnv
    · by_cases herror : error = .missingZone
      · exact .inr (.inr ⟨by rw [herror], hzone⟩)
      · exact .inr (.inl ⟨error, herror, rfl⟩)
    · -- Where the zone is not to blame, nothing else ends the program.
      have hends : FailsWith (· ≠ Error.missingZone) (e.renderValue name data).1 := by
        refine failsWith_renderValue ownErrors_ne_missingZone fun v hv n hn program hprogram => ?_
        refine failsWith_of_not_lacksZone rfl hprogram fun call hcall hlacks => ?_
        exact hzone ⟨v, hv, n, hn, call, hcall, hlacks⟩
      exact .inr (.inl ⟨error, hends error hresult, rfl⟩)

/-- 1970-01-01 is written with its zone, which it does not have. -/
theorem renderValue_missingZone :
    let source := "\x7b\x7bformat_date 0 '%Z'\x7d\x7d"
    let result := (standard.renderValue source .null).1
    ¬ ((∃ text, result = .ok text) ∨
      ∃ error, error ≠ .missingZone ∧ result = .error error) := by
  intro source result
  let call : Call := ⟨"format_date", ⟨"format_date", false, 0, ["format_date"], none⟩,
    [.literal (.int 0), .literal (.str "%Z")], [], 1⟩
  have hscan : Token.scan source =
      .ok [⟨.output ⟨"format_date", ["0", "'%Z'"], []⟩ true, 1⟩] := by
    cbv
  have hparse : Template.parse source = .ok ⟨[.output call true]⟩ :=
    bind_eq_ok.2 ⟨_, hscan, rfl⟩
  have htree : Cache.none.compile source = (.ok ⟨[.output call true]⟩, .none) :=
    congrArg (·, Cache.none) hparse
  have hresult : result = .error .missingZone := by
    show (standard.renderValue source .null).1 = .error .missingZone
    rw [@renderValue_eq standard _ _ _ _ _ rfl htree]
    cbv
  rw [hresult]
  rintro (⟨text, htext⟩ | ⟨error, herror, hsame⟩)
  · cases htext
  · exact herror (Except.error.inj hsame).symm

end Engine

end Stencil
