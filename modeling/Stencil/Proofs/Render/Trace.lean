import Mathlib.Logic.Relation
import Stencil.Proofs.Render.Termination

/-!
# The nodes of a render in their order

A render is followed from node to node, over all levels: each node that is rendered, the ones that
are rendered one level deeper for it, the node behind it, and so on up to the first one that fails.

## Main definitions

* `Render.Step` - a node that is rendered, and the state in front of it
* `Render.row` - the steps of nodes one after another, with what each of them leads to
* `Render.trace` - all steps of a render in the order in which they begin
* `Node.tag?` - the call and the branches of a tag
-/

namespace Stencil

/-- The call of a tag and its branches; a tag without a body has none. Texts and partials are no
tags of helpers. -/
def Node.tag? : Node → Option (Call × List (Branch Node))
  | .output call _ => some (call, [])
  | .inline call => some (call, [])
  | .block call branches => some (call, branches)
  | _ => none

namespace Render

/-- A node that is rendered, and the state in front of it. -/
structure Step where
  node : Node
  state : RenderState

/-- The steps of nodes one after another up to the first one that fails. Behind each node comes what
is rendered one level deeper for it, as `inside` has it. -/
def row (env : RenderEnv) (inside : Descent → List Step) : List Node → RenderState → List Step
  | [], _ => []
  | first :: rest, st =>
    ⟨first, st⟩ :: (nodeDescents env (nested env maxDepth) st first).flatMap inside ++
      match node env (nested env maxDepth) first st with
      | (.ok _, st) => row env inside rest st
      | (.error _, _) => []

/-- The steps of nodes and of all that is rendered for them on the given number of levels below, in
the order in which they begin. -/
def trace (env : RenderEnv) : (levels : Nat) → List Node → RenderState → List Step
  | 0, body, st => row env (fun _ => []) body st
  | levels + 1, body, st =>
    row env (fun d =>
      if d.state.depth < maxDepth then
        trace env levels d.body { d.state with depth := d.state.depth + 1 }
      else []) body st

/-- All steps of the render of a template. -/
def templateTrace (env : RenderEnv) (t : Template) (st : RenderState) : List Step :=
  trace env maxDepth t.nodes st

variable {env : RenderEnv} {levels : Nat} {body : List Node} {st : RenderState} {s : Step}

/-- A step of nodes is one of a node of their own, or one inside of a descent. -/
theorem mem_row {inside : Descent → List Step} :
    s ∈ row env inside body st ↔
      s ∈ row env (fun _ => []) body st ∨
        ∃ d ∈ nodesDescents env (nested env maxDepth) body st, s ∈ inside d := by
  induction body generalizing st with
  | nil => simp [row, nodesDescents]
  | cons first rest ih =>
    have hempty (descents : List Descent) :
        descents.flatMap (fun _ => ([] : List Step)) = [] := by simp
    cases hstep : node env (nested env maxDepth) first st with
    | mk result st' =>
      simp only [row, nodesDescents, hstep, hempty, List.cons_append, List.nil_append,
        List.mem_cons, List.mem_append, List.mem_flatMap]
      cases result with
      | error e => simp
      | ok text =>
        dsimp only
        rw [ih]
        constructor
        · rintro (hself | ⟨d, hd, hs⟩ | hrest | ⟨d, hd, hs⟩)
          · exact .inl (.inl hself)
          · exact .inr ⟨d, .inl hd, hs⟩
          · exact .inl (.inr hrest)
          · exact .inr ⟨d, .inr hd, hs⟩
        · rintro ((hself | hrest) | ⟨d, hd | hd, hs⟩)
          · exact .inl hself
          · exact .inr (.inr (.inl hrest))
          · exact .inr (.inl ⟨d, hd, hs⟩)
          · exact .inr (.inr (.inr ⟨d, hd, hs⟩))

/-- The trace of a render has the nodes of all places to which its nodes lead, and no others. -/
theorem mem_trace_iff (hlevels : maxDepth ≤ levels + st.depth) :
    s ∈ trace env levels body st ↔
      ∃ d, Relation.ReflTransGen (LeadsTo env) ⟨body, st⟩ d ∧
        s ∈ row env (fun _ => []) d.body d.state := by
  induction levels generalizing body st with
  | zero =>
    constructor
    · exact fun hs => ⟨⟨body, st⟩, .refl, hs⟩
    · rintro ⟨d, hpath, hs⟩
      -- At the limit nothing is led to.
      rcases hpath.cases_head with rfl | ⟨next, hnext, -⟩
      · exact hs
      · have hdepth := hnext.depth_lt
        dsimp only at hdepth
        omega
  | succ levels ih =>
    rw [trace, mem_row]
    constructor
    · rintro (hs | ⟨d, hd, hs⟩)
      · exact ⟨⟨body, st⟩, .refl, hs⟩
      · split at hs
        · next hdepth =>
          have hkept := (descends_of_mem_nodesDescents (.nested env maxDepth) body hd).2
          obtain ⟨last, hpath, hlast⟩ := (ih (by dsimp only; omega)).1 hs
          exact ⟨last, .head ⟨d, hd, hdepth, rfl⟩ hpath, hlast⟩
        · cases hs
    · rintro ⟨last, hpath, hs⟩
      rcases hpath.cases_head with rfl | ⟨next, ⟨d, hd, hdepth, rfl⟩, hpath⟩
      · exact .inl hs
      · have hkept := (descends_of_mem_nodesDescents (.nested env maxDepth) body hd).2
        refine .inr ⟨d, hd, ?_⟩
        rw [if_pos hdepth]
        exact (ih (by dsimp only at hkept ⊢; omega)).2 ⟨last, hpath, hs⟩

end Render

end Stencil
