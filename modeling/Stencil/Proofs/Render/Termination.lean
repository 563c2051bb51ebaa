import Stencil.Proofs.Render.Levels

/-!
# Renders end

Whatever nodes lead to on the next level, the depth is greater there, and at `maxDepth` nothing is
led to any more. The equation by which nodes are rendered one level deeper, which has no number of
levels in it, therefore has exactly one solution, and this is what a render computes.

## Main definitions

* `Render.LeadsTo` - the nodes that are rendered on the next level while others are
* `Render.Recurs` - the equation for rendering nodes one level deeper

## Design notes

Within a level the recursion follows the nodes, the branches of a tag and the requests of a helper,
which are all finite. Only from level to level it jumps to nodes that are no parts of those above:
the bodies of fragments and the trees of partials.
-/

namespace Stencil

namespace Render

variable {env : RenderEnv} {levels : Nat} {body : List Node} {st : RenderState}

/-- While the nodes of `d` are rendered in its state, those of `d'` are rendered on the next level:
the body of a helper, another branch, a fragment or a partial. -/
def LeadsTo (env : RenderEnv) (d d' : Descent) : Prop :=
  ∃ next ∈ nodesDescents env (nested env maxDepth) d.body d.state,
    next.state.depth < maxDepth ∧
      d' = ⟨next.body, { next.state with depth := next.state.depth + 1 }⟩

/-- A way to render nodes one level deeper that renders what is below in the same way. -/
def Recurs (env : RenderEnv) (f : Nested) : Prop :=
  ∀ body, f body = deeper (nodes env f body)

theorem LeadsTo.depth_lt {d d' : Descent} (h : LeadsTo env d d') :
    d.state.depth < d'.state.depth ∧ d'.state.depth ≤ maxDepth := by
  obtain ⟨next, hmem, hlimit, rfl⟩ := h
  have hdepth : next.state.depth = d.state.depth :=
    (descends_of_mem_nodesDescents (.nested env maxDepth) d.body hmem).2
  refine ⟨?_, hlimit⟩
  show d.state.depth < next.state.depth + 1
  omega

/-- No render leads to new levels without end, whatever fragments invoke each other and whatever
partials are in each other. -/
theorem wellFounded_leadsTo (env : RenderEnv) : WellFounded fun d' d => LeadsTo env d d' := by
  refine Subrelation.wf (fun {d' d} h => ?_)
    (measure fun d : Descent => maxDepth - d.state.depth).wf
  obtain ⟨hdeeper, hlimit⟩ := h.depth_lt
  show maxDepth - d'.state.depth < maxDepth - d.state.depth
  omega

/-! ### The number of levels -/

theorem deeper_congr {α : Type} {x y : Render α}
    (h : st.depth < maxDepth →
      x { st with depth := st.depth + 1 } = y { st with depth := st.depth + 1 }) :
    deeper x st = deeper y st := by
  unfold deeper
  split
  · rfl
  · next hlimit => rw [h (Nat.lt_of_not_le hlimit)]

/-- Two ways to render nodes that agree on the next level do so on this one. -/
theorem deeper_nodes_congr {f g : Nested} (hf : ∀ body, Balanced (f body))
    (h : ∀ body (st' : RenderState), st'.depth = st.depth + 1 → f body st' = g body st') :
    deeper (nodes env f body) st = deeper (nodes env g body) st := by
  refine deeper_congr fun _ => nodes_congr body fun d hd => h d.body d.state ?_
  exact (descends_of_mem_nodesDescents hf body hd).2

theorem deeper_of_limit {α : Type} (x y : Render α) (h : maxDepth ≤ st.depth) :
    deeper x st = deeper y st :=
  deeper_congr fun hlimit => absurd h (Nat.not_le_of_lt hlimit)

/-- Levels beyond those that are left to the limit change nothing. -/
theorem nested_succ_eq (h : maxDepth ≤ levels + st.depth) :
    nested env (levels + 1) body st = nested env levels body st := by
  induction levels generalizing body st with
  | zero => exact deeper_of_limit _ _ (by omega)
  | succ levels ih =>
    exact deeper_nodes_congr (.nested env (levels + 1)) fun body st' hdepth => ih (by omega)

/-- What a render uses for the next level renders that level in the same way. -/
theorem recurs_nested (env : RenderEnv) : Recurs env (nested env maxDepth) := by
  intro body
  funext st
  exact (nested_succ_eq (Nat.le_add_right maxDepth st.depth)).symm

theorem Recurs.eq_nested {f : Nested} (hf : Recurs env f) (h : maxDepth ≤ levels + st.depth) :
    f body st = nested env levels body st := by
  induction levels generalizing body st with
  | zero =>
    rw [hf body]
    exact deeper_of_limit _ _ (by omega)
  | succ levels ih =>
    rw [hf body]
    refine (deeper_nodes_congr (.nested env levels) fun body st' hdepth => ?_).symm
    exact (ih (by omega)).symm

/-- There is exactly one way to render nodes one level deeper that renders what is below in the same
way. The number of levels is only there to show this. -/
theorem recurs_iff {f : Nested} : Recurs env f ↔ f = nested env maxDepth := by
  constructor
  · intro hf
    funext body st
    exact hf.eq_nested (Nat.le_add_right maxDepth st.depth)
  · rintro rfl
    exact recurs_nested env

end Render

end Stencil
