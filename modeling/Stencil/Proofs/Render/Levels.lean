import Stencil.Proofs.Helper.Requests
import Stencil.Proofs.Render.Calls

/-!
# Frames and levels during a render

Wherever nodes are rendered, there is at most one frame more than there are levels, and no more than
`maxDepth` levels.

## Main definitions

* `Render.Visit` - a place where nodes are rendered
* `Render.visits` - all places where nodes are rendered on the way, on any level
* `RenderState.Descends` - the next level is entered from a state
-/

namespace Stencil

/-- What holds between the state of nodes and the state in which something of theirs is rendered one
level deeper: a frame may have been entered, and the depth is the same. -/
def RenderState.Descends (st st' : RenderState) : Prop :=
  (∃ frame, st'.scope = (st.enter frame).scope) ∧ st'.depth = st.depth

namespace RenderState.Descends

variable {st st' st'' : RenderState}

theorem enter (st : RenderState) (frame : Option Frame) : st.Descends (st.enter frame) := by
  refine ⟨⟨frame, rfl⟩, ?_⟩
  cases frame with
  | none => rfl
  | some frame => rfl

/-- Only the scope and the depth of the first state count. -/
theorem of_eq (hscope : st'.scope = st.scope) (hdepth : st'.depth = st.depth)
    (h : st'.Descends st'') : st.Descends st'' := by
  obtain ⟨⟨frame, hframe⟩, hdepth'⟩ := h
  refine ⟨⟨frame, ?_⟩, hdepth'.trans hdepth⟩
  rw [hframe]
  cases frame with
  | none => exact hscope
  | some frame => simp only [RenderState.enter, hscope]

theorem scope_depth_le (h : st.Descends st') : st'.scope.depth ≤ st.scope.depth + 1 := by
  obtain ⟨⟨frame, hframe⟩, -⟩ := h
  rw [hframe]
  cases frame with
  | none => exact Nat.le_succ _
  | some frame => exact Nat.le_refl _

end RenderState.Descends

namespace Render

variable {α : Type} {env : RenderEnv} {below : Nested} {st : RenderState} {d : Descent}

theorem descends_of_mem_requestDescent? {branches : List (Branch Node)} {request : Request}
    (h : d ∈ requestDescent? branches st request) : st.Descends d.state := by
  cases request with
  | body frame =>
    obtain rfl := Option.some.inj h
    exact .enter st frame
  | inverse frame =>
    obtain ⟨branch, -, rfl⟩ := Option.map_eq_some_iff.1 h
    exact .enter st frame
  | define name => simp [requestDescent?] at h
  | invoke name =>
    obtain ⟨body, -, rfl⟩ := Option.map_eq_some_iff.1 h
    exact .enter st none

/-- All requests of a helper find the same scope and depth, because the ones in front of them are
balanced. -/
theorem descends_of_mem_programDescents (hbelow : ∀ body, Balanced (below body))
    {branches : List (Branch Node)} (program : Program α)
    (h : d ∈ programDescents below branches program st) : st.Descends d.state := by
  induction program generalizing st with
  | done result => simp [programDescents] at h
  | ask request next ih =>
    rcases List.mem_append.1 h with hrequest | hnext
    · exact descends_of_mem_requestDescent? (Option.mem_toList.1 hrequest)
    · obtain ⟨hscope, hdepth⟩ := Balanced.answer hbelow branches request st
      exact (ih _ hnext).of_eq hscope hdepth

/-- What a helper asks to be rendered comes from one of its requests, if it ends with the first one
that fails. Each request finds the scope and the depth of the tag. -/
theorem exists_request_of_mem_programDescents (hbelow : ∀ body, Balanced (below body))
    {branches : List (Branch Node)} {Q : Request → Prop} {program : Program α}
    (hprogram : program.Asks Q) (h : d ∈ programDescents below branches program st) :
    ∃ request mid, Q request ∧ mid.scope = st.scope ∧ mid.depth = st.depth ∧
      d ∈ requestDescent? branches mid request := by
  induction hprogram generalizing st with
  | done result => cases h
  | @ask request later hrequest herror _ ih =>
    rcases List.mem_append.1 h with hfirst | hlater
    · exact ⟨request, st, hrequest, rfl, rfl, Option.mem_toList.1 hfirst⟩
    · obtain ⟨hscope, hdepth⟩ := Balanced.answer hbelow branches request st
      change d ∈ programDescents below branches (later (answer below branches request st).1)
        (answer below branches request st).2 at hlater
      cases hstep : answer below branches request st with
      | mk result next =>
        rw [hstep] at hlater hscope hdepth
        cases result with
        | error e =>
          rw [herror e] at hlater
          cases hlater
        | ok text =>
          obtain ⟨asked, mid, hasked, hscope', hdepth', hd⟩ := ih text hlater
          exact ⟨asked, mid, hasked, hscope'.trans hscope, hdepth'.trans hdepth, hd⟩

theorem descends_of_mem_partialDescent? {name : String} {context : Option Param}
    (h : d ∈ partialDescent? env name context st) : st.Descends d.state := by
  unfold partialDescent? at h
  split at h
  · simp at h
  · next source _ =>
    have hcompile := Balanced.compile source.source st
    split at h
    · simp at h
    · next template st' hstep =>
      -- Only the cache has changed since the partial was asked for.
      rw [hstep] at hcompile
      obtain rfl := Option.some.inj h
      exact (RenderState.Descends.enter st' _).of_eq hcompile.1 hcompile.2

theorem descends_of_mem_nodeDescents (hbelow : ∀ body, Balanced (below body)) (n : Node)
    (h : d ∈ nodeDescents env below st n) : st.Descends d.state := by
  have hprogram {branches : List (Branch Node)} {program? : Option (Program String)}
      (h : d ∈ (program?.map (programDescents below branches · st)).getD []) :
      st.Descends d.state := by
    cases program? with
    | none => simp at h
    | some program => exact descends_of_mem_programDescents hbelow program h
  cases n with
  | text body => simp [nodeDescents] at h
  | raw body => simp [nodeDescents] at h
  | output call escaped => exact hprogram h
  | inline call => exact hprogram h
  | block call branches => exact hprogram h
  | partialTag name context line =>
    exact descends_of_mem_partialDescent? (Option.mem_toList.1 h)

theorem descends_of_mem_nodesDescents (hbelow : ∀ body, Balanced (below body)) (body : List Node)
    (h : d ∈ nodesDescents env below body st) : st.Descends d.state := by
  induction body generalizing st with
  | nil => simp [nodesDescents] at h
  | cons first rest ih =>
    rcases List.mem_append.1 h with hfirst | hrest
    · exact descends_of_mem_nodeDescents hbelow first hfirst
    · have hkept : (node env below first st).2.scope = st.scope ∧
          (node env below first st).2.depth = st.depth := Balanced.node hbelow first st
      split at hrest
      · next text st' hstep =>
        rw [hstep] at hkept
        exact (ih hrest).of_eq hkept.1 hkept.2
      · simp at hrest

/-! ### Visits -/

/-- A place of a render where nodes are rendered: the number of levels that are left below, the
nodes, and the state in front of them. -/
structure Visit where
  levels : Nat
  body : List Node
  state : RenderState

/-- The result of the nodes, and the state behind them. -/
def Visit.run (env : RenderEnv) (v : Visit) : Except Error String × RenderState :=
  nodes env (nested env v.levels) v.body v.state

/-- All places where nodes are rendered while the given nodes are: these nodes themselves, and what
each of their descents leads to, unless the limit is reached there. -/
def visits (env : RenderEnv) : (levels : Nat) → List Node → RenderState → List Visit
  | 0, body, st => [⟨0, body, st⟩]
  | levels + 1, body, st =>
    let descents := nodesDescents env (nested env (levels + 1)) body st
    ⟨levels + 1, body, st⟩ ::
      (descents.filter fun d => d.state.depth < maxDepth).flatMap fun d =>
        visits env levels d.body { d.state with depth := d.state.depth + 1 }

/-- A place within the limits: no more than `maxDepth` levels, and at most as many frames above the
whole data as there are levels. -/
def Visit.WithinLimits (v : Visit) : Prop :=
  v.state.depth ≤ maxDepth ∧ v.state.scope.depth ≤ v.state.depth + 1

variable {levels : Nat} {body : List Node} {v : Visit}

theorem self_mem_visits (levels : Nat) (body : List Node) (st : RenderState) :
    ⟨levels, body, st⟩ ∈ visits env levels body st := by
  cases levels with
  | zero => exact .head _
  | succ levels => exact .head _

/-- The places below a descent are places below the first nodes. -/
theorem mem_visits_of_mem_descent (hd : d ∈ nodesDescents env (nested env (levels + 1)) body st)
    (hdepth : d.state.depth < maxDepth)
    (hv : v ∈ visits env levels d.body { d.state with depth := d.state.depth + 1 }) :
    v ∈ visits env (levels + 1) body st :=
  .tail _ (List.mem_flatMap.2 ⟨d, List.mem_filter.2 ⟨hd, decide_eq_true hdepth⟩, hv⟩)

/-- What leads to a place below the first nodes. -/
theorem exists_descent_of_mem_visits (hv : v ∈ visits env (levels + 1) body st) :
    v = ⟨levels + 1, body, st⟩ ∨
      ∃ d : Descent, st.Descends d.state ∧ d.state.depth < maxDepth ∧
        v ∈ visits env levels d.body { d.state with depth := d.state.depth + 1 } := by
  rcases List.mem_cons.1 hv with hfirst | hdeeper
  · exact .inl hfirst
  · obtain ⟨d, hd, hv⟩ := List.mem_flatMap.1 hdeeper
    obtain ⟨hmem, hdepth⟩ := List.mem_filter.1 hd
    have hdescends : st.Descends d.state :=
      descends_of_mem_nodesDescents (.nested env (levels + 1)) body hmem
    exact .inr ⟨d, hdescends, of_decide_eq_true hdepth, hv⟩

/-- All places are within the limits if the first one is, whatever number of levels is left there:
it is the depth that ends the descent. -/
theorem withinLimits_of_mem_visits (hstart : Visit.WithinLimits ⟨levels, body, st⟩)
    (hv : v ∈ visits env levels body st) : v.WithinLimits := by
  induction levels generalizing body st with
  | zero =>
    obtain rfl := List.mem_singleton.1 hv
    exact hstart
  | succ levels ih =>
    rcases exists_descent_of_mem_visits hv with rfl | ⟨d, hdescends, hdepth, hv⟩
    · exact hstart
    · have hscope : st.scope.depth ≤ st.depth + 1 := hstart.2
      -- The frame that the descent may have entered is the one that the new level allows for.
      have hframe : d.state.scope.depth ≤ d.state.depth + 1 + 1 := by
        have hone := hdescends.scope_depth_le
        rw [hdescends.2]
        omega
      have hnext : Visit.WithinLimits
          ⟨levels, d.body, { d.state with depth := d.state.depth + 1 }⟩ := ⟨hdepth, hframe⟩
      exact ih hnext hv

/-- Wherever nodes are rendered during a render, the scope and the depth behind them are the scope
and the depth in front of them, whether they fail or not. The depth is at most `maxDepth`, and
there are at most as many frames above the whole data as there are levels. This does not depend on
the number of levels that `Render.nested` starts with. -/
theorem balanced_of_mem_visits {t : Template} {data : Value} {dataVariables : Bool} {cache : Cache}
    (hv : v ∈ visits env levels t.nodes ⟨Scope.ofRoot data dataVariables, [], 0, cache⟩) :
    (v.run env).2.scope = v.state.scope ∧ (v.run env).2.depth = v.state.depth ∧
      v.state.depth ≤ maxDepth ∧ v.state.scope.depth ≤ v.state.depth + 1 := by
  have hstart : Visit.WithinLimits
      ⟨levels, t.nodes, ⟨Scope.ofRoot data dataVariables, [], 0, cache⟩⟩ :=
    ⟨Nat.zero_le _, Nat.le_refl 1⟩
  obtain ⟨hlimit, hframes⟩ := withinLimits_of_mem_visits hstart hv
  obtain ⟨hscope, hdepth⟩ := Balanced.nodes (.nested env v.levels) v.body v.state
  exact ⟨hscope, hdepth, hlimit, hframes⟩

/-- A helper that enters a frame twice for a body that fails, and goes on. -/
theorem balanced_of_mem_visits_fail :
    let call (name : String) : Call := ⟨name, ⟨name, false, 0, [name], none⟩, [], [], 1⟩
    let frame : Option Frame := some ⟨.null, none⟩
    let twice : Helper :=
      ⟨fun _ => .ask (.body frame) fun _ => .ask (.body frame) fun _ => .done (.ok "")⟩
    let env : RenderEnv := ⟨[("twice", twice)], .verbatim, id⟩
    let t : Template := ⟨[.block (call "twice") [⟨none, [.inline (call "missing")]⟩]]⟩
    let v : Visit :=
      ⟨63, [.inline (call "missing")], ⟨⟨[⟨.null, none⟩], .map [], false⟩, [], 1, .none⟩⟩
    v ∈ visits env maxDepth t.nodes ⟨Scope.ofRoot (.map []) false, [], 0, .none⟩ ∧
      (v.run env).1 = .error (.unknownHelper "missing") ∧
      (v.run env).2.scope = v.state.scope ∧ (v.run env).2.depth = v.state.depth ∧
      v.state.depth ≤ maxDepth ∧ v.state.scope.depth ≤ v.state.depth + 1 := by
  intro call frame twice env t v
  have hv : v ∈ visits env maxDepth t.nodes ⟨Scope.ofRoot (.map []) false, [], 0, .none⟩ :=
    .tail _ (.head _)
  exact ⟨hv, rfl, balanced_of_mem_visits hv⟩

end Render

end Stencil
