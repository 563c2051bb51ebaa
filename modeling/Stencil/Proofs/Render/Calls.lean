import Stencil.Proofs.Render.Balance

/-!
# The calls of a render

While nodes are rendered, other nodes are rendered one level deeper: bodies of helpers, fragments
and partials. Here these calls are listed in their order, each with the state in which it happens,
and the lists are shown to be complete: nothing but the results of these calls goes into the result.

## Main definitions

* `Render.Descent` - nodes that are to be rendered one level deeper, and the state
* `Render.programDescents`, `Render.nodeDescents`, `Render.nodesDescents` - what a helper, a node
  and nodes ask to be rendered one level deeper
* `Render.Agree` - two ways to render nodes that give the same on some descents

## Design notes

Steps take the way in which nodes are rendered one level deeper as an argument. The list for a step
is complete if two such ways that agree on the list lead to the same result and the same state.
-/

namespace Stencil

/-- The state in which a step is done that enters the given frame. -/
def RenderState.enter (st : RenderState) : Option Frame → RenderState
  | none => st
  | some frame => { st with scope := st.scope.push frame }

namespace Render

variable {α : Type} {env : RenderEnv} {below below' : Nested} {st : RenderState}

/-- Nodes that are to be rendered one level deeper, and the state in which this happens. -/
structure Descent where
  body : List Node
  state : RenderState

/-- Whether the condition of a branch holds; a branch without one counts always. -/
def isChosen (scope : Scope) (branch : Branch Node) : Bool :=
  match branch.condition with
  | none => true
  | some condition => (scope.resolveParam condition).isTruthy

/-- The first branch whose condition holds. -/
def chosen? (scope : Scope) (branches : List (Branch Node)) : Option (Branch Node) :=
  branches.find? (isChosen scope)

/-- What a request asks to be rendered. -/
def requestDescent? (branches : List (Branch Node)) (st : RenderState) : Request → Option Descent
  | .body frame => some ⟨mainBody branches, st.enter frame⟩
  | .inverse frame =>
    (chosen? (st.enter frame).scope branches.tail).map fun branch => ⟨branch.body, st.enter frame⟩
  | .define _ => none
  | .invoke name => (st.fragments.find? name).map fun body => ⟨body, st⟩

/-- What a helper asks to be rendered, one request after another. -/
def programDescents (below : Nested) (branches : List (Branch Node)) :
    Program α → RenderState → List Descent
  | .done _, _ => []
  | .ask request next, st =>
    let (result, st') := answer below branches request st
    (requestDescent? branches st request).toList ++ programDescents below branches (next result) st'

/-- The course of action of the helper that a tag calls. -/
def helperProgram? (env : RenderEnv) (call : Call) (branches : List (Branch Node))
    (scope : Scope) : Option (Program String) :=
  (env.helpers.find? call.name).map fun helper =>
    helper.run (call.invocation (!branches.isEmpty) scope)

/-- The course of action of a block for the value of a variable. -/
def variableProgram? (call : Call) (branches : List (Branch Node)) (scope : Scope) :
    Option (Program String) :=
  if call.hasArguments then none
  else (scope.resolveSliced? call.path).map fun value =>
    Helper.variableBlock (call.invocation (!branches.isEmpty) scope) value

/-- The course of action of a block. -/
def blockProgram? (env : RenderEnv) (call : Call) (branches : List (Branch Node))
    (scope : Scope) : Option (Program String) :=
  (helperProgram? env call branches scope).or (variableProgram? call branches scope)

/-- What a partial asks to be rendered, if its text is found and has a tree. -/
def partialDescent? (env : RenderEnv) (name : String) (context : Option Param) (st : RenderState) :
    Option Descent :=
  match env.partials.load name with
  | .error _ => none
  | .ok source =>
    match compile source.source st with
    | (.error _, _) => none
    | (.ok template, st) =>
      some ⟨template.nodes, st.enter (context.map fun param => ⟨st.scope.resolveParam param, none⟩)⟩

/-- What a node asks to be rendered. -/
def nodeDescents (env : RenderEnv) (below : Nested) (st : RenderState) : Node → List Descent
  | .text _ => []
  | .raw _ => []
  | .output call _ =>
    ((helperProgram? env call [] st.scope).map (programDescents below [] · st)).getD []
  | .inline call =>
    ((helperProgram? env call [] st.scope).map (programDescents below [] · st)).getD []
  | .block call branches =>
    ((blockProgram? env call branches st.scope).map (programDescents below branches · st)).getD []
  | .partialTag name context _ => (partialDescent? env name context st).toList

/-- What nodes ask to be rendered, one node after another up to the first one that fails. -/
def nodesDescents (env : RenderEnv) (below : Nested) : List Node → RenderState → List Descent
  | [], _ => []
  | first :: rest, st =>
    nodeDescents env below st first ++
      match node env below first st with
      | (.ok _, st) => nodesDescents env below rest st
      | (.error _, _) => []

/-! ### The lists are complete -/

theorem bind_congr {β : Type} {x y : Render α} {f g : α → Render β} (hxy : x st = y st)
    (hfg : ∀ a st', x st = (.ok a, st') → f a st' = g a st') : (x >>= f) st = (y >>= g) st := by
  show Render.bind x f st = Render.bind y g st
  unfold Render.bind
  rw [← hxy]
  split
  · next a st' hstep => exact hfg a st' hstep
  · rfl

theorem within_congr {x y : Render α} {frame : Option Frame}
    (hxy : x (st.enter frame) = y (st.enter frame)) : within frame x st = within frame y st := by
  cases frame with
  | none => exact hxy
  | some frame =>
    simp only [RenderState.enter] at hxy
    simp only [within, hxy]

/-- The frame that a step is done in counts for its result. -/
theorem within_fst (frame : Option Frame) (x : Render α) :
    (within frame x st).1 = (x (st.enter frame)).1 := by
  cases frame with
  | none => rfl
  | some frame => rfl

/-- Of branches the first one is rendered whose condition holds. -/
theorem inverse_eq (branches : List (Branch Node)) :
    inverse below branches st =
      match chosen? st.scope branches with
      | none => (.ok "", st)
      | some branch => below branch.body st := by
  induction branches with
  | nil => rfl
  | cons branch branches ih =>
    show (if isChosen st.scope branch then below branch.body else inverse below branches) st = _
    rw [chosen?, List.find?_cons]
    cases isChosen st.scope branch with
    | true => rfl
    | false => exact ih

theorem inverse_of_chosen?_eq_none {branches : List (Branch Node)}
    (h : chosen? st.scope branches = none) : inverse below branches st = (.ok "", st) := by
  rw [inverse_eq, h]

theorem inverse_of_chosen?_eq_some {branches : List (Branch Node)} {branch : Branch Node}
    (h : chosen? st.scope branches = some branch) :
    inverse below branches st = below branch.body st := by
  rw [inverse_eq, h]

/-- Two ways to render nodes one level deeper that give the same on all descents of a list. -/
def Agree (below below' : Nested) (descents : List Descent) : Prop :=
  ∀ d ∈ descents, below d.body d.state = below' d.body d.state

theorem Agree.of_append {descents later : List Descent}
    (h : Agree below below' (descents ++ later)) :
    Agree below below' descents ∧ Agree below below' later :=
  ⟨fun d hd => h d (List.mem_append_left _ hd), fun d hd => h d (List.mem_append_right _ hd)⟩

theorem answer_congr {branches : List (Branch Node)} {request : Request}
    (h : Agree below below' (requestDescent? branches st request).toList) :
    answer below branches request st = answer below' branches request st := by
  cases request with
  | body frame => exact within_congr (h ⟨mainBody branches, st.enter frame⟩ (.head _))
  | inverse frame =>
    refine within_congr ?_
    rw [inverse_eq, inverse_eq]
    cases hchosen : chosen? (st.enter frame).scope branches.tail with
    | none => rfl
    | some branch => exact h ⟨branch.body, st.enter frame⟩ (by simp [requestDescent?, hchosen])
  | define name => rfl
  | invoke name =>
    show invoke below name st = invoke below' name st
    unfold invoke
    cases hfragment : st.fragments.find? name with
    | none => rfl
    | some body => exact h ⟨body, st⟩ (by simp [requestDescent?, hfragment])

theorem run_congr {branches : List (Branch Node)} (program : Program α)
    (h : Agree below below' (programDescents below branches program st)) :
    run (answer below branches) program st = run (answer below' branches) program st := by
  induction program generalizing st with
  | done result => rfl
  | ask request next ih =>
    -- The next request depends on the answer to this one, which is the same on both sides.
    obtain ⟨hrequest, hnext⟩ := h.of_append
    simp only [run]
    rw [← answer_congr hrequest]
    exact ih _ hnext

theorem output_congr {call : Call} {escaped : Bool}
    (h : Agree below below' (nodeDescents env below st (.output call escaped))) :
    output env below call escaped st = output env below' call escaped st := by
  unfold output
  cases hhelper : env.helpers.find? call.name with
  | none => rfl
  | some helper =>
    simp only [nodeDescents, helperProgram?, hhelper] at h
    exact bind_congr (run_congr _ h) fun text st' _ => rfl

theorem inline_congr {call : Call}
    (h : Agree below below' (nodeDescents env below st (.inline call))) :
    inline env below call st = inline env below' call st := by
  unfold inline
  cases hhelper : env.helpers.find? call.name with
  | none => rfl
  | some helper =>
    simp only [nodeDescents, helperProgram?, hhelper] at h
    exact run_congr _ h

theorem block_congr {call : Call} {branches : List (Branch Node)}
    (h : Agree below below' (nodeDescents env below st (.block call branches))) :
    block env below call branches st = block env below' call branches st := by
  unfold block
  cases hhelper : env.helpers.find? call.name with
  | some helper =>
    simp only [nodeDescents, blockProgram?, helperProgram?, hhelper] at h
    exact run_congr _ h
  | none =>
    simp only [nodeDescents, blockProgram?, helperProgram?, variableProgram?, hhelper] at h
    refine bind_congr rfl fun value st' hvalue => ?_
    -- Looking up the variable leaves the state as it is, so the helper starts where the block does.
    obtain ⟨rfl, rfl⟩ : st.scope.resolveSliced? call.path = value ∧ st = st' := by
      simpa [readScope] using hvalue
    cases hvalue : st.scope.resolveSliced? call.path with
    | none => rfl
    | some value =>
      dsimp only
      split
      · rfl
      · next hargs =>
        simp only [hargs, hvalue] at h
        exact run_congr _ h

theorem partialTag_congr {name : String} {context : Option Param} {line : Nat}
    (h : Agree below below' (nodeDescents env below st (.partialTag name context line))) :
    partialTag env below name context st = partialTag env below' name context st := by
  unfold partialTag
  refine bind_congr rfl fun source st' hsource => ?_
  refine bind_congr rfl fun template st'' htemplate => ?_
  obtain ⟨hload, rfl⟩ : env.partials.load name = .ok source ∧ st = st' := by
    simpa [ofResult] using hsource
  refine within_congr (h ⟨template.nodes, st''.enter _⟩ ?_)
  simp [nodeDescents, partialDescent?, hload, htemplate]

/-- Nothing but the results of its descents goes into the result of a node. -/
theorem node_congr (n : Node) (h : Agree below below' (nodeDescents env below st n)) :
    node env below n st = node env below' n st := by
  cases n with
  | text body => rfl
  | raw body => rfl
  | output call escaped => exact output_congr h
  | inline call => exact inline_congr h
  | block call branches => exact block_congr h
  | partialTag name context line => exact partialTag_congr h

/-- Nothing but the results of their descents goes into the result of nodes. -/
theorem nodes_congr (body : List Node) (h : Agree below below' (nodesDescents env below body st)) :
    nodes env below body st = nodes env below' body st := by
  induction body generalizing st with
  | nil => rfl
  | cons first rest ih =>
    obtain ⟨hfirst, hrest⟩ := h.of_append
    refine bind_congr (node_congr first hfirst) fun front st' hstep => ?_
    refine bind_congr (ih ?_) fun back st' _ => rfl
    rwa [hstep] at hrest

end Render

end Stencil
