import Stencil.Proofs.Helper.Requests
import Stencil.Proofs.Render.Balance

/-!
# Rendering on a level further out

The depth of a render matters only where the limit is reached: what does not fail there gives the
same text or the same error on every level further out, and leaves the same scope, fragments and
cache.

## Main definitions

* `Error.tooDeep` - the error where the limit is reached
* `Render.Lifts` - a step that gives the same on every level further out

Main statement: `Render.Lifts.node`.

## Design notes

This only holds of helpers that end with the error of a request. One that goes on after an error
may learn in this way that the limit has been reached.
-/

namespace Stencil

/-- The error of what would be rendered beyond the limit. -/
def Error.tooDeep : Error :=
  .render (.nesting maxDepth)

/-- The state on another level. -/
def RenderState.onLevel (st : RenderState) (depth : Nat) : RenderState :=
  { st with depth := depth }

namespace Render

variable {α β : Type} {env : RenderEnv} {below : Nested}

/-- Unless it reaches the limit, the step gives the same on every level further out, and what it
leaves behind differs in the level only. -/
def Lifts (x : Render α) : Prop :=
  ∀ (st : RenderState) (depth : Nat), depth ≤ st.depth → (x st).1 ≠ .error .tooDeep →
    x (st.onLevel depth) = ((x st).1, (x st).2.onLevel depth)

namespace Lifts

theorem pure (a : α) : Lifts (Pure.pure a : Render α) :=
  fun _ _ _ _ => rfl

theorem ofResult (result : Except Error α) : Lifts (Render.ofResult result) :=
  fun _ _ _ _ => rfl

theorem readScope (f : Scope → α) : Lifts (Render.readScope f) :=
  fun _ _ _ _ => rfl

theorem compile (source : String) : Lifts (Render.compile source) :=
  fun _ _ _ _ => rfl

theorem define (name : String) (body : List Node) : Lifts (Render.define name body) :=
  fun _ _ _ _ => rfl

theorem bind {x : Render α} {f : α → Render β} (hbalanced : Balanced x) (hx : Lifts x)
    (hf : ∀ a, Lifts (f a)) : Lifts (x >>= f) := by
  intro st depth hdepth
  show (Render.bind x f st).1 ≠ _ → Render.bind x f (st.onLevel depth) =
    ((Render.bind x f st).1, (Render.bind x f st).2.onLevel depth)
  have hkept := (hbalanced st).2
  have hout := hx st depth hdepth
  unfold Render.bind
  cases hstep : x st with
  | mk result mid =>
    rw [hstep] at hkept hout
    cases result with
    | error e =>
      intro hlimit
      have herror : (.error e : Except Error α) ≠ .error .tooDeep :=
        fun h => hlimit (congrArg Except.error (Except.error.inj h))
      rw [hout herror]
    | ok a =>
      rw [hout nofun]
      exact hf a mid depth (Nat.le_trans hdepth (Nat.le_of_eq hkept.symm))

theorem within (frame : Option Frame) {x : Render α} (hx : Lifts x) :
    Lifts (Render.within frame x) := by
  intro st depth hdepth hlimit
  cases frame with
  | none => exact hx st depth hdepth hlimit
  | some frame =>
    have hout := hx { st with scope := st.scope.push frame } depth hdepth hlimit
    simp only [Render.within, RenderState.onLevel] at hout ⊢
    rw [hout]

/-- On a level further out the limit is not nearer. -/
theorem deeper {x : Render α} (hx : Lifts x) : Lifts (Render.deeper x) := by
  intro st depth hdepth
  unfold Render.deeper
  by_cases hfull : maxDepth ≤ st.depth
  · rw [if_pos hfull]
    exact fun hlimit => absurd rfl hlimit
  · have hroom : ¬ maxDepth ≤ depth := fun h => hfull (Nat.le_trans h hdepth)
    rw [if_neg hfull, if_neg (show ¬ maxDepth ≤ (st.onLevel depth).depth from hroom)]
    intro hlimit
    have hout := hx { st with depth := st.depth + 1 } (depth + 1) (Nat.succ_le_succ hdepth) hlimit
    simp only [RenderState.onLevel] at hout ⊢
    rw [hout]
    rfl

theorem inverse (hbelow : ∀ body, Lifts (below body)) (branches : List (Branch Node)) :
    Lifts (Render.inverse below branches) := by
  induction branches with
  | nil => exact .pure ""
  | cons branch branches ih =>
    refine .bind (.readScope _) (.readScope _) fun isChosen => ?_
    cases isChosen with
    | true => exact hbelow branch.body
    | false => exact ih

theorem invoke (hbelow : ∀ body, Lifts (below body)) (name : String) :
    Lifts (Render.invoke below name) := by
  intro st depth hdepth
  show (Render.invoke below name st).1 ≠ _ → Render.invoke below name (st.onLevel depth) =
    ((Render.invoke below name st).1, (Render.invoke below name st).2.onLevel depth)
  unfold Render.invoke
  cases hfragment : st.fragments.find? name with
  | none =>
    intro _
    rw [show (st.onLevel depth).fragments.find? name = none from hfragment]
  | some body =>
    intro hlimit
    rw [show (st.onLevel depth).fragments.find? name = some body from hfragment]
    exact hbelow body st depth hdepth hlimit

section Helpers

variable (hbalanced : ∀ body, Balanced (below body)) (hbelow : ∀ body, Lifts (below body))
include hbelow

theorem answer (branches : List (Branch Node)) (request : Request) :
    Lifts (Render.answer below branches request) := by
  cases request with
  | body frame => exact .within frame (hbelow _)
  | inverse frame => exact .within frame (.inverse hbelow _)
  | define name => exact .define name _
  | invoke name => exact .invoke hbelow name

include hbalanced

/-- The requests of a helper that ends with the first one that fails: if the helper does not reach
the limit, none of its requests does. -/
theorem run (branches : List (Branch Node)) {program : Program α}
    (hprogram : program.Asks fun _ => True) :
    Lifts (Render.run (Render.answer below branches) program) := by
  induction hprogram with
  | done result => exact .ofResult result
  | @ask request next _ herror _ ih =>
    intro st depth hdepth
    have hkept := (Balanced.answer hbalanced branches request st).2
    have hout := Lifts.answer hbelow branches request st depth hdepth
    simp only [Render.run]
    cases hstep : Render.answer below branches request st with
    | mk result mid =>
      rw [hstep] at hkept hout
      cases result with
      | error e =>
        dsimp only
        rw [herror e]
        intro hlimit
        have herror' : (.error e : Except Error String) ≠ .error .tooDeep :=
          fun h => hlimit (congrArg Except.error (Except.error.inj h))
        rw [hout herror', herror e]
        rfl
      | ok text =>
        rw [hout nofun]
        exact ih text mid depth (Nat.le_trans hdepth (Nat.le_of_eq hkept.symm))

end Helpers

/-! ### Tags -/

section Tags

variable (hhelpers : env.helpers = Registry.builtin) (hbalanced : ∀ body, Balanced (below body))
  (hbelow : ∀ body, Lifts (below body))
include hhelpers hbalanced hbelow

theorem callHelper {helper : Helper} {call : Call}
    (hfind : env.helpers.find? call.name = some helper) (branches : List (Branch Node)) :
    Lifts (Render.callHelper below helper call branches) := by
  rw [hhelpers] at hfind
  refine .bind (.readScope _) (.readScope _) fun invocation => .run hbalanced hbelow branches ?_
  exact Helper.asks_builtin (fun _ => trivial) (fun _ => trivial) (fun _ _ => trivial)
    (fun _ _ => trivial) hfind invocation

theorem output (call : Call) (escaped : Bool) : Lifts (Render.output env below call escaped) := by
  unfold Render.output
  split
  · next helper hfind =>
    exact .bind (.callHelper hbalanced helper call [])
      (.callHelper hhelpers hbalanced hbelow hfind []) fun _ => .pure _
  · split
    · exact .ofResult _
    · refine .bind (.readScope _) (.readScope _) fun value => ?_
      cases value with
      | none => exact .pure _
      | some value => exact .pure _

theorem inline (call : Call) : Lifts (Render.inline env below call) := by
  unfold Render.inline
  split
  · next helper hfind => exact .callHelper hhelpers hbalanced hbelow hfind []
  · refine .bind (.readScope _) (.readScope _) fun value => ?_
    cases value with
    | none => exact .ofResult _
    | some value =>
      dsimp only
      split
      · exact .ofResult _
      · exact .pure _

theorem block (call : Call) (branches : List (Branch Node)) :
    Lifts (Render.block env below call branches) := by
  unfold Render.block
  split
  · next helper hfind => exact .callHelper hhelpers hbalanced hbelow hfind branches
  · refine .bind (.readScope _) (.readScope _) fun value => ?_
    cases value with
    | none => exact .ofResult _
    | some value =>
      dsimp only
      split
      · exact .ofResult _
      · refine .bind (.readScope _) (.readScope _) fun invocation =>
          .run hbalanced hbelow branches ?_
        exact Helper.asks_variableBlock (fun _ => trivial) (fun _ => trivial) invocation value

omit hhelpers hbalanced in
theorem partialTag (name : String) (context : Option Param) :
    Lifts (Render.partialTag env below name context) :=
  .bind (.ofResult _) (.ofResult _) fun _ => .bind (.compile _) (.compile _) fun _ =>
    .bind (.readScope _) (.readScope _) fun frame => .within frame (hbelow _)

theorem node (n : Node) : Lifts (Render.node env below n) := by
  cases n with
  | text body => exact .pure body
  | raw body => exact .pure body
  | output call escaped => exact .output hhelpers hbalanced hbelow call escaped
  | inline call => exact .inline hhelpers hbalanced hbelow call
  | block call branches => exact .block hhelpers hbalanced hbelow call branches
  | partialTag name context line => exact .partialTag hbelow name context

theorem nodes (body : List Node) : Lifts (Render.nodes env below body) := by
  induction body with
  | nil => exact .pure ""
  | cons first rest ih =>
    exact .bind (.node hbalanced first) (.node hhelpers hbalanced hbelow first) fun _ =>
      .bind (.nodes hbalanced rest) ih fun _ => .pure _

end Tags

/-- Nodes that are rendered a level deeper, by induction on the levels that are left. -/
theorem nested (hhelpers : env.helpers = Registry.builtin) (levels : Nat) (body : List Node) :
    Lifts (Render.nested env levels body) := by
  induction levels generalizing body with
  | zero => exact .deeper (.ofResult _)
  | succ levels ih => exact .deeper (.nodes hhelpers (.nested env levels) ih body)

end Lifts

end Render

end Stencil
