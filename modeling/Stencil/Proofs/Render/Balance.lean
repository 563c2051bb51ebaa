import Stencil.Render

/-!
# Frames and levels are left again

A step of a render may enter a frame or go a level deeper on its way. Behind the step both are as
they were in front of it, on success and on failure.

## Main definitions

* `Render.Balanced` - a step that keeps the scope and the depth
-/

namespace Stencil

namespace Render

variable {α β : Type} {env : RenderEnv} {below : Nested}

/-- A step that keeps the scope and the depth, whether it fails or not. -/
def Balanced (x : Render α) : Prop :=
  ∀ st, (x st).2.scope = st.scope ∧ (x st).2.depth = st.depth

namespace Balanced

theorem pure (a : α) : Balanced (Pure.pure a : Render α) :=
  fun _ => ⟨rfl, rfl⟩

theorem ofResult (result : Except Error α) : Balanced (Render.ofResult result) :=
  fun _ => ⟨rfl, rfl⟩

theorem readScope (f : Scope → α) : Balanced (Render.readScope f) :=
  fun _ => ⟨rfl, rfl⟩

theorem compile (source : String) : Balanced (Render.compile source) :=
  fun _ => ⟨rfl, rfl⟩

theorem define (name : String) (body : List Node) : Balanced (Render.define name body) :=
  fun _ => ⟨rfl, rfl⟩

theorem bind {x : Render α} {f : α → Render β} (hx : Balanced x) (hf : ∀ a, Balanced (f a)) :
    Balanced (x >>= f) := by
  intro st
  show (Render.bind x f st).2.scope = st.scope ∧ (Render.bind x f st).2.depth = st.depth
  unfold Render.bind
  have hkept := hx st
  split
  · next a st' hstep =>
    rw [hstep] at hkept
    obtain ⟨hscope, hdepth⟩ := hf a st'
    exact ⟨hscope.trans hkept.1, hdepth.trans hkept.2⟩
  · next e st' hstep =>
    rwa [hstep] at hkept

/-- A frame that a step is done in is left again. -/
theorem within (frame : Option Frame) {x : Render α} (hx : Balanced x) :
    Balanced (Render.within frame x) := by
  intro st
  cases frame with
  | none => exact hx st
  | some frame =>
    obtain ⟨hscope, hdepth⟩ := hx { st with scope := st.scope.push frame }
    refine ⟨?_, hdepth⟩
    show Scope.pop _ = st.scope
    rw [hscope, Scope.pop_push]

/-- The level on which a step is done is left again. -/
theorem deeper {x : Render α} (hx : Balanced x) : Balanced (Render.deeper x) := by
  intro st
  unfold Render.deeper
  split
  · exact ⟨rfl, rfl⟩
  · obtain ⟨hscope, hdepth⟩ := hx { st with depth := st.depth + 1 }
    refine ⟨hscope, ?_⟩
    show _ - 1 = st.depth
    rw [hdepth, Nat.add_sub_cancel]

theorem inverse (hbelow : ∀ body, Balanced (below body)) (branches : List (Branch Node)) :
    Balanced (Render.inverse below branches) := by
  induction branches with
  | nil => exact .pure ""
  | cons branch branches ih =>
    refine .bind (.readScope _) fun isChosen => ?_
    cases isChosen with
    | true => exact hbelow branch.body
    | false => exact ih

theorem invoke (hbelow : ∀ body, Balanced (below body)) (name : String) :
    Balanced (Render.invoke below name) := by
  intro st
  unfold Render.invoke
  split
  · next body _ => exact hbelow body st
  · exact ⟨rfl, rfl⟩

/-- What a helper may ask for keeps the scope and the depth. -/
theorem answer (hbelow : ∀ body, Balanced (below body)) (branches : List (Branch Node))
    (request : Request) : Balanced (Render.answer below branches request) := by
  cases request with
  | body frame => exact .within frame (hbelow _)
  | inverse frame => exact .within frame (.inverse hbelow _)
  | define name => exact .define name _
  | invoke name => exact .invoke hbelow name

/-- A helper that does nothing but ask keeps the scope and the depth, however it goes on when a
request fails. -/
theorem run {answer : Request → Render String} (hanswer : ∀ request, Balanced (answer request))
    (program : Program α) : Balanced (Render.run answer program) := by
  induction program with
  | done result => exact .ofResult result
  | ask request next ih =>
    intro st
    -- What the helper does next is balanced for every answer, an error included.
    obtain ⟨hscope, hdepth⟩ := hanswer request st
    obtain ⟨hscope', hdepth'⟩ := ih (answer request st).1 (answer request st).2
    exact ⟨hscope'.trans hscope, hdepth'.trans hdepth⟩

theorem callHelper (hbelow : ∀ body, Balanced (below body)) (helper : Helper) (call : Call)
    (branches : List (Branch Node)) : Balanced (Render.callHelper below helper call branches) :=
  .bind (.readScope _) fun _ => .run (.answer hbelow branches) _

theorem output (hbelow : ∀ body, Balanced (below body)) (call : Call) (escaped : Bool) :
    Balanced (Render.output env below call escaped) := by
  unfold Render.output
  split
  · next helper _ => exact .bind (.callHelper hbelow helper call []) fun _ => .pure _
  · split
    · exact .ofResult _
    · refine .bind (.readScope _) fun value => ?_
      cases value with
      | none => exact .pure _
      | some value => exact .pure _

theorem inline (hbelow : ∀ body, Balanced (below body)) (call : Call) :
    Balanced (Render.inline env below call) := by
  unfold Render.inline
  split
  · next helper _ => exact .callHelper hbelow helper call []
  · refine .bind (.readScope _) fun value => ?_
    cases value with
    | none => exact .ofResult _
    | some value =>
      dsimp only
      split
      · exact .ofResult _
      · exact .pure _

theorem block (hbelow : ∀ body, Balanced (below body)) (call : Call)
    (branches : List (Branch Node)) : Balanced (Render.block env below call branches) := by
  unfold Render.block
  split
  · next helper _ => exact .callHelper hbelow helper call branches
  · refine .bind (.readScope _) fun value => ?_
    cases value with
    | none => exact .ofResult _
    | some value =>
      dsimp only
      split
      · exact .ofResult _
      · exact .bind (.readScope _) fun _ => .run (.answer hbelow branches) _

theorem partialTag (hbelow : ∀ body, Balanced (below body)) (name : String)
    (context : Option Param) : Balanced (Render.partialTag env below name context) :=
  .bind (.ofResult _) fun _ => .bind (.compile _) fun _ => .bind (.readScope _) fun frame =>
    .within frame (hbelow _)

theorem node (hbelow : ∀ body, Balanced (below body)) (n : Node) :
    Balanced (Render.node env below n) := by
  cases n with
  | text body => exact .pure body
  | raw body => exact .pure body
  | output call escaped => exact .output hbelow call escaped
  | inline call => exact .inline hbelow call
  | block call branches => exact .block hbelow call branches
  | partialTag name context line => exact .partialTag hbelow name context

theorem nodes (hbelow : ∀ body, Balanced (below body)) (body : List Node) :
    Balanced (Render.nodes env below body) := by
  induction body with
  | nil => exact .pure ""
  | cons first rest ih =>
    exact .bind (.node hbelow first) fun _ => .bind ih fun _ => .pure _

/-- Nodes that are rendered a level deeper keep the scope and the depth, by induction on the levels
that are left. -/
theorem nested (env : RenderEnv) (levels : Nat) (body : List Node) :
    Balanced (Render.nested env levels body) := by
  induction levels generalizing body with
  | zero => exact .deeper (.ofResult _)
  | succ levels ih => exact .deeper (.nodes ih body)

end Balanced

end Render

end Stencil
