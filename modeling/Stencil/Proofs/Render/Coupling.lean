import Stencil.Proofs.Helper.Related
import Stencil.Proofs.Render.Simulation

/-!
# Two renders of related nodes

Two renders in one environment may start in different scopes, or render different nodes, and still
give the same text or the same error. Here it is shown once what they have to have in common: the
related scopes, the related nodes and the related caches of the two are tied to each other by
a few conditions, and then every step of the one gives what the step of the other gives.

## Main definitions

* `Render.Coupling` - the relations between two renders
* `Render.Coupling.States` - related states
* `Render.Coupling.Couples` - two steps that give the same and lead to related states
* `Render.Coupling.Steps` - what has to be shown of related nodes

Main statement: `Render.Coupling.Steps.nodes`.

## Design notes

A simulation has one tree and two environments, and its second state is a function of the first one;
a coupling has one environment and two trees, and its states are related only. In both it is the
first render whose lookups have to be admitted.
-/

namespace Stencil.Render

/-- The relations between two renders: between their scopes, the frames that they enter, their
caches, and the nodes that they render. Related frames keep scopes related; a value is entered as
a frame in both alike, and so are the turns of a loop over it. -/
structure Coupling where
  Scopes : Scope → Scope → Prop
  Frames : Frame → Frame → Prop
  Caches : Cache → Cache → Prop
  Nodes : Node → Node → Prop
  push : ∀ {s s' frame frame'}, Scopes s s' → Frames frame frame' →
    Scopes (s.push frame) (s'.push frame')
  frame : ∀ value, Frames ⟨value, none⟩ ⟨value, none⟩
  turns : ∀ {s s'}, Scopes s s' → ∀ value, List.Forall₂ (Option.Rel Frames)
    (Helper.turns s.dataVariables value) (Helper.turns s'.dataVariables value)

/-- Nothing but the scope has to be taken back when a frame is left. -/
theorem within_eq {α : Type} {x : Render α} (hx : Balanced x) (frame : Option Frame)
    (st : RenderState) :
    within frame x st =
      ((x (st.enter frame)).1, { (x (st.enter frame)).2 with scope := st.scope }) := by
  cases frame with
  | none =>
    have hscope := (hx st).1
    show x st = ((x st).1, { (x st).2 with scope := st.scope })
    rw [← hscope]
  | some frame =>
    have hscope := (hx { st with scope := st.scope.push frame }).1
    simp only [within, RenderState.enter, hscope, Scope.pop_push]

namespace Coupling

variable {α β : Type} (c : Coupling)

/-- Bodies with related nodes. -/
def Bodies : List Node → List Node → Prop :=
  List.Forall₂ c.Nodes

/-- Branches that count in the same scopes and have related bodies. -/
def Branches : List (Branch Node) → List (Branch Node) → Prop :=
  List.Forall₂ fun branch branch' =>
    (∀ s s', c.Scopes s s' → isChosen s' branch' = isChosen s branch) ∧
      c.Bodies branch.body branch'.body

/-- Related states: they are on the same level, and have related fragments by the same names. -/
structure States (st st' : RenderState) : Prop where
  scope : c.Scopes st.scope st'.scope
  fragments : ∀ name,
    Option.Rel c.Bodies (st.fragments.find? name) (st'.fragments.find? name)
  depth : st'.depth = st.depth
  cache : c.Caches st.cache st'.cache

/-- What is the same in related scopes. -/
def Reads (f : Scope → α) : Prop :=
  ∀ {s s'}, c.Scopes s s' → f s' = f s

/-- A tag whose arguments are the same in related scopes, and so is the variable that it names, if
it names one. -/
structure ReadsCall (env : RenderEnv) (call : Call) : Prop where
  params : ∀ param ∈ call.params, c.Reads (·.resolveParam param)
  hash : ∀ entry ∈ call.hash, c.Reads (·.resolveParam entry.2)
  path : env.helpers.find? call.name = none → c.Reads (·.resolveSliced? call.path)

/-- Two steps that give the same result, and lead from one state each to related states. -/
def Couples (x x' : Render α) (st st' : RenderState) : Prop :=
  (x' st').1 = (x st).1 ∧ c.States (x st).2 (x' st').2

/-- Two ways to render nodes that couple wherever nodes related to those of a descent are rendered
in a related state. -/
def CouplesAll (below below' : Nested) (descents : List Descent) : Prop :=
  ∀ d ∈ descents, ∀ body' st', c.Bodies d.body body' → c.States d.state st' →
    c.Couples (below d.body) (below' body') d.state st'

variable {c} {env : RenderEnv} {below below' : Nested} {st st' : RenderState}

theorem CouplesAll.of_append {descents later : List Descent}
    (h : c.CouplesAll below below' (descents ++ later)) :
    c.CouplesAll below below' descents ∧ c.CouplesAll below below' later :=
  ⟨fun d hd => h d (List.mem_append_left _ hd), fun d hd => h d (List.mem_append_right _ hd)⟩

namespace States

theorem enter (h : c.States st st') {frame frame' : Option Frame}
    (hframe : Option.Rel c.Frames frame frame') :
    c.States (st.enter frame) (st'.enter frame') := by
  cases hframe with
  | none => exact h
  | some hframe => exact ⟨c.push h.scope hframe, h.fragments, h.depth, h.cache⟩

theorem insert (h : c.States st st') (name : String) {body body' : List Node}
    (hbody : c.Bodies body body') :
    c.States { st with fragments := st.fragments.insert name body }
      { st' with fragments := st'.fragments.insert name body' } := by
  refine ⟨h.scope, fun other => ?_, h.depth, h.cache⟩
  show Option.Rel c.Bodies ((st.fragments.insert name body).find? other)
    ((st'.fragments.insert name body').find? other)
  by_cases hname : other = name
  · subst hname
    rw [Entries.find?_insert_self, Entries.find?_insert_self]
    exact .some hbody
  · rw [Entries.find?_insert_of_ne hname, Entries.find?_insert_of_ne hname]
    exact h.fragments other

end States

namespace Branches

variable {branches branches' : List (Branch Node)}

theorem isEmpty_eq (h : c.Branches branches branches') :
    branches'.isEmpty = branches.isEmpty := by
  cases h with
  | nil => rfl
  | cons _ _ => rfl

theorem mainBody (h : c.Branches branches branches') :
    c.Bodies (mainBody branches) (Render.mainBody branches') := by
  cases h with
  | nil => exact .nil
  | cons hfirst _ => exact hfirst.2

theorem tail (h : c.Branches branches branches') : c.Branches branches.tail branches'.tail := by
  cases h with
  | nil => exact .nil
  | cons _ hlater => exact hlater

/-- The branches that count first are related. -/
theorem chosen? (h : c.Branches branches branches') {s s' : Scope} (hs : c.Scopes s s') :
    Option.Rel (fun branch branch' : Branch Node => c.Bodies branch.body branch'.body)
      (Render.chosen? s branches) (Render.chosen? s' branches') := by
  induction h with
  | nil => exact .none
  | @cons branch branch' branches branches' hfirst _ ih =>
    unfold Render.chosen? at ih ⊢
    rw [List.find?_cons, List.find?_cons, hfirst.1 s s' hs]
    cases isChosen s branch with
    | true => exact .some hfirst.2
    | false => exact ih

end Branches

/-! ### Steps -/

namespace Couples

variable {x x' : Render α}

theorem ofResult (result : Except Error α) (hst : c.States st st') :
    c.Couples (Render.ofResult result) (Render.ofResult result) st st' :=
  ⟨rfl, hst⟩

theorem pure (a : α) (hst : c.States st st') :
    c.Couples (Pure.pure a : Render α) (Pure.pure a) st st' :=
  ⟨rfl, hst⟩

theorem readScope {f : Scope → α} (hf : c.Reads f) (hst : c.States st st') :
    c.Couples (Render.readScope f) (Render.readScope f) st st' :=
  ⟨congrArg Except.ok (hf hst.scope), hst⟩

theorem bind {f f' : α → Render β} (hx : c.Couples x x' st st')
    (hf : ∀ a mid mid', x st = (.ok a, mid) → x' st' = (.ok a, mid') → c.States mid mid' →
      c.Couples (f a) (f' a) mid mid') :
    c.Couples (x >>= f) (x' >>= f') st st' := by
  show c.Couples (Render.bind x f) (Render.bind x' f') st st'
  obtain ⟨hresult, hstates⟩ := hx
  unfold Couples Render.bind
  cases hstep : x st with
  | mk result mid =>
    cases hstep' : x' st' with
    | mk result' mid' =>
      rw [hstep, hstep'] at hresult hstates
      obtain rfl : result' = result := hresult
      cases result' with
      | ok a => exact hf a mid mid' hstep hstep' hstates
      | error e => exact ⟨rfl, hstates⟩

/-- The frames that the two steps are done in are left again, whether they are related or not. -/
theorem within {frame frame' : Option Frame} (hst : c.States st st') (hx : Balanced x)
    (hx' : Balanced x') (h : c.Couples x x' (st.enter frame) (st'.enter frame')) :
    c.Couples (Render.within frame x) (Render.within frame' x') st st' := by
  obtain ⟨hresult, hstates⟩ := h
  unfold Couples
  rw [within_eq hx, within_eq hx']
  exact ⟨hresult, hst.scope, hstates.fragments, hstates.depth, hstates.cache⟩

theorem deeper (hst : c.States st st')
    (h : st.depth < maxDepth →
      c.Couples x x' { st with depth := st.depth + 1 } { st' with depth := st'.depth + 1 }) :
    c.Couples (Render.deeper x) (Render.deeper x') st st' := by
  unfold Couples Render.deeper
  by_cases hlimit : maxDepth ≤ st.depth
  · have hlimit' : maxDepth ≤ st'.depth := by rwa [hst.depth]
    rw [if_pos hlimit, if_pos hlimit']
    exact ⟨rfl, hst⟩
  · have hlimit' : ¬ maxDepth ≤ st'.depth := by rwa [hst.depth]
    rw [if_neg hlimit, if_neg hlimit']
    obtain ⟨hresult, hstates⟩ := h (Nat.lt_of_not_le hlimit)
    refine ⟨hresult, hstates.scope, hstates.fragments, ?_, hstates.cache⟩
    show _ - 1 = _ - 1
    rw [hstates.depth]

/-! ### Helpers -/

variable {branches branches' : List (Branch Node)}

theorem answer {request request' : Request} (hrequest : Request.Related c.Frames request request')
    (hst : c.States st st') (hbranches : c.Branches branches branches')
    (hbalanced : ∀ body, Balanced (below body)) (hbalanced' : ∀ body, Balanced (below' body))
    (hbelow : c.CouplesAll below below' (requestDescent? branches st request).toList) :
    c.Couples (Render.answer below branches request) (Render.answer below' branches' request')
      st st' := by
  cases hrequest with
  | @body frame frame' hframe =>
    exact .within hst (hbalanced _) (hbalanced' _) (hbelow ⟨mainBody branches, st.enter frame⟩
      (.head _) _ _ hbranches.mainBody (hst.enter hframe))
  | @inverse frame frame' hframe =>
    have henter := hst.enter hframe
    refine .within hst (.inverse hbalanced _) (.inverse hbalanced' _) ?_
    have hchosen := hbranches.tail.chosen? henter.scope
    unfold Couples
    rw [inverse_eq, inverse_eq]
    generalize hfirst : Render.chosen? (st.enter frame).scope branches.tail = first at hchosen ⊢
    generalize Render.chosen? (st'.enter frame').scope branches'.tail = first' at hchosen ⊢
    cases hchosen with
    | none => exact ⟨rfl, henter⟩
    | @some branch branch' hbody =>
      refine hbelow ⟨branch.body, st.enter frame⟩ ?_ _ _ hbody henter
      simp [requestDescent?, hfirst]
  | define name => exact ⟨rfl, hst.insert name hbranches.mainBody⟩
  | invoke name =>
    show c.Couples (Render.invoke below name) (Render.invoke below' name) st st'
    have hfragments := hst.fragments name
    unfold Couples Render.invoke
    generalize hstored : st.fragments.find? name = stored at hfragments ⊢
    generalize st'.fragments.find? name = stored' at hfragments ⊢
    cases hfragments with
    | none => exact ⟨rfl, hst⟩
    | @some body body' hbody =>
      refine hbelow ⟨body, st⟩ ?_ _ _ hbody hst
      simp [requestDescent?, hstored]

/-- Related requests one after another. The next ones depend on the answers, and these are the same
on both sides. -/
theorem run {program program' : Program α} (hprogram : Program.Related c.Frames program program')
    (hst : c.States st st') (hbranches : c.Branches branches branches')
    (hbalanced : ∀ body, Balanced (below body)) (hbalanced' : ∀ body, Balanced (below' body))
    (hbelow : c.CouplesAll below below' (programDescents below branches program st)) :
    c.Couples (Render.run (Render.answer below branches) program)
      (Render.run (Render.answer below' branches') program') st st' := by
  induction hprogram generalizing st st' with
  | done result => exact .ofResult result hst
  | @ask request request' next next' hrequest _ ih =>
    obtain ⟨hfirst, hlater⟩ := hbelow.of_append
    obtain ⟨hanswer, hstates⟩ :=
      Couples.answer hrequest hst hbranches hbalanced hbalanced' hfirst
    have hrest := ih (Render.answer below branches request st).1 hstates hlater
    unfold Couples
    simp only [Render.run]
    rw [hanswer]
    exact hrest

end Couples

/-! ### Tags -/

/-- In related scopes a tag hands the same to its helper, but for the scope. -/
theorem ReadsCall.invocation_eq {call : Call} (hcall : c.ReadsCall env call) {s s' : Scope}
    (hs : c.Scopes s s') {branches branches' : List (Branch Node)}
    (hbranches : c.Branches branches branches') :
    call.invocation (!branches'.isEmpty) s' =
      { call.invocation (!branches.isEmpty) s with scope := s' } := by
  rw [hbranches.isEmpty_eq]
  exact Call.invocation_congr (fun param hparam => hcall.params param hparam hs)
    (fun entry hentry => hcall.hash entry hentry hs) _

namespace Couples

variable {branches branches' : List (Branch Node)} {call : Call}

variable (hhelpers : env.helpers = Registry.builtin) (hbalanced : ∀ body, Balanced (below body))
  (hbalanced' : ∀ body, Balanced (below' body))

include hhelpers hbalanced hbalanced'

theorem callHelper {helper : Helper} (hfind : env.helpers.find? call.name = some helper)
    (hcall : c.ReadsCall env call) (hst : c.States st st')
    (hbranches : c.Branches branches branches')
    (hbelow : c.CouplesAll below below' (programDescents below branches
      (helper.run (call.invocation (!branches.isEmpty) st.scope)) st)) :
    c.Couples (Render.callHelper below helper call branches)
      (Render.callHelper below' helper call branches') st st' := by
  rw [hhelpers] at hfind
  have hprogram := Helper.related_builtin (call.invocation (!branches.isEmpty) st.scope) c.frame
    (c.turns hst.scope) hfind
  rw [← hcall.invocation_eq hst.scope hbranches] at hprogram
  exact Couples.run hprogram hst hbranches hbalanced hbalanced' hbelow

theorem output (escaped : Bool) (hcall : c.ReadsCall env call) (hst : c.States st st')
    (hbelow : c.CouplesAll below below' (nodeDescents env below st (.output call escaped))) :
    c.Couples (Render.output env below call escaped) (Render.output env below' call escaped)
      st st' := by
  unfold Render.output
  cases hfind : env.helpers.find? call.name with
  | some helper =>
    simp only [nodeDescents, helperProgram?, hfind] at hbelow
    exact .bind (.callHelper hhelpers hbalanced hbalanced' hfind hcall hst .nil hbelow)
      fun text mid mid' _ _ hmid => .pure _ hmid
  | none =>
    dsimp only
    by_cases harguments : call.hasArguments = true
    · rw [if_pos harguments]
      exact .ofResult _ hst
    · rw [if_neg harguments]
      refine .bind (.readScope (hcall.path hfind) hst) fun value mid mid' _ _ hmid => ?_
      cases value with
      | none => exact .pure _ hmid
      | some value => exact .pure _ hmid

theorem inline (hcall : c.ReadsCall env call) (hst : c.States st st')
    (hbelow : c.CouplesAll below below' (nodeDescents env below st (.inline call))) :
    c.Couples (Render.inline env below call) (Render.inline env below' call) st st' := by
  unfold Render.inline
  cases hfind : env.helpers.find? call.name with
  | some helper =>
    simp only [nodeDescents, helperProgram?, hfind] at hbelow
    exact .callHelper hhelpers hbalanced hbalanced' hfind hcall hst .nil hbelow
  | none =>
    refine .bind (.readScope (hcall.path hfind) hst) fun value mid mid' _ _ hmid => ?_
    cases value with
    | none => exact .ofResult _ hmid
    | some value =>
      dsimp only
      by_cases harguments : call.hasArguments = true
      · rw [if_pos harguments]
        exact .ofResult _ hmid
      · rw [if_neg harguments]
        exact .pure _ hmid

theorem block (hcall : c.ReadsCall env call) (hst : c.States st st')
    (hbranches : c.Branches branches branches')
    (hbelow : c.CouplesAll below below' (nodeDescents env below st (.block call branches))) :
    c.Couples (Render.block env below call branches) (Render.block env below' call branches')
      st st' := by
  unfold Render.block
  cases hfind : env.helpers.find? call.name with
  | some helper =>
    simp only [nodeDescents, blockProgram?, helperProgram?, hfind] at hbelow
    exact .callHelper hhelpers hbalanced hbalanced' hfind hcall hst hbranches hbelow
  | none =>
    simp only [nodeDescents, blockProgram?, helperProgram?, variableProgram?, hfind] at hbelow
    refine .bind (.readScope (hcall.path hfind) hst) fun value mid mid' hread hread' hmid => ?_
    -- Looking up the variable leaves the states as they are, so the helper starts in them.
    obtain ⟨hvalue, rfl⟩ : st.scope.resolveSliced? call.path = value ∧ st = mid := by
      simpa [Render.readScope] using hread
    obtain rfl : st' = mid' := (Prod.mk.inj hread').2
    cases value with
    | none => exact .ofResult _ hst
    | some value =>
      dsimp only
      by_cases harguments : call.hasArguments = true
      · rw [if_pos harguments, if_pos harguments]
        exact .ofResult _ hst
      · rw [if_neg harguments, if_neg harguments]
        rw [if_neg harguments, hvalue] at hbelow
        have hprogram := Helper.related_variableBlock
          (call.invocation (!branches.isEmpty) st.scope) c.frame (c.turns hst.scope) value
        rw [← hcall.invocation_eq hst.scope hbranches] at hprogram
        exact Couples.run hprogram hst hbranches hbalanced hbalanced' hbelow

omit hhelpers in
/-- A partial, if both caches give the same answer, and with it related nodes. -/
theorem partialTag {name : String} {context : Option Param} {line : Nat}
    (hcontext : ∀ param ∈ context, c.Reads (·.resolveParam param)) (hst : c.States st st')
    (hcompile : ∀ source, env.partials.load name = .ok source →
      (st'.cache.compile source.source).1 = (st.cache.compile source.source).1 ∧
        c.Caches (st.cache.compile source.source).2 (st'.cache.compile source.source).2 ∧
        ∀ t, (st.cache.compile source.source).1 = .ok t → c.Bodies t.nodes t.nodes)
    (hbelow : c.CouplesAll below below'
      (nodeDescents env below st (.partialTag name context line))) :
    c.Couples (Render.partialTag env below name context)
      (Render.partialTag env below' name context) st st' := by
  unfold Render.partialTag
  refine .bind (.ofResult _ hst) fun source mid mid' hsource hsource' _ => ?_
  obtain ⟨hload, rfl⟩ : env.partials.load name = .ok source ∧ st = mid := by
    simpa [Render.ofResult] using hsource
  obtain rfl : st' = mid' := (Prod.mk.inj hsource').2
  obtain ⟨hsame, hcaches, hbodies⟩ := hcompile source hload
  have htree : c.Couples (compile source.source) (compile source.source) st st' :=
    ⟨hsame, hst.scope, hst.fragments, hst.depth, hcaches⟩
  refine .bind htree fun t mid mid' hstep _ hmid => ?_
  have hbody : c.Bodies t.nodes t.nodes := hbodies t (congrArg Prod.fst hstep)
  have hframe : Option.Rel c.Frames
      (context.map fun param => (⟨mid.scope.resolveParam param, none⟩ : Frame))
      (context.map fun param => (⟨mid'.scope.resolveParam param, none⟩ : Frame)) := by
    cases context with
    | none => exact .none
    | some param =>
      have hvalue : mid'.scope.resolveParam param = mid.scope.resolveParam param :=
        hcontext param rfl hmid.scope
      simp only [Option.map_some, hvalue]
      exact .some (c.frame _)
  -- The frames are read from the states in which the body is rendered then.
  show c.Couples (Render.within _ (below t.nodes)) (Render.within _ (below' t.nodes)) mid mid'
  refine .within hmid (hbalanced _) (hbalanced' _)
    (hbelow ⟨t.nodes, mid.enter _⟩ ?_ _ _ hbody (hmid.enter hframe))
  simp [nodeDescents, partialDescent?, hload, hstep]

end Couples

/-! ### Whole renders -/

/-- What has to be shown of a coupling: related nodes give the same in related states if the
lookup of the first one is admitted, and if what they ask for couples. -/
structure Steps (c : Coupling) (env : RenderEnv) (Admits : Lookup → Prop) : Prop where
  node : ∀ {below below' : Nested} {n n' : Node} {st st' : RenderState}, c.Nodes n n' →
    c.States st st' → (∀ body, Balanced (below body)) → (∀ body, Balanced (below' body)) →
    (∀ l ∈ nodeLookup? env st n, Admits l) →
    c.CouplesAll below below' (nodeDescents env below st n) →
    c.Couples (Render.node env below n) (Render.node env below' n') st st'

namespace Steps

variable {Admits : Lookup → Prop}

/-- One node after another. -/
theorem row (hsteps : c.Steps env Admits) (hbalanced : ∀ body, Balanced (below body))
    (hbalanced' : ∀ body, Balanced (below' body)) {body body' : List Node}
    (hbody : c.Bodies body body') (hst : c.States st st')
    (hadmits : ∀ l ∈ nodesLookups env below body st, Admits l)
    (hbelow : c.CouplesAll below below' (nodesDescents env below body st)) :
    c.Couples (Render.nodes env below body) (Render.nodes env below' body') st st' := by
  induction hbody generalizing st st' with
  | nil => exact .pure "" hst
  | @cons first first' rest rest' hfirst _ ih =>
    obtain ⟨hbelowFirst, hbelowRest⟩ := hbelow.of_append
    have hadmitsFirst : ∀ l ∈ nodeLookup? env st first, Admits l := fun l hl =>
      hadmits l (List.mem_append_left _ (Option.mem_toList.2 hl))
    refine .bind (hsteps.node hfirst hst hbalanced hbalanced' hadmitsFirst hbelowFirst)
      fun front mid mid' hstep _ hmid => ?_
    rw [hstep] at hbelowRest
    have hadmitsRest : ∀ l ∈ nodesLookups env below rest mid, Admits l := by
      intro l hl
      refine hadmits l (List.mem_append_right _ ?_)
      rwa [hstep]
    exact .bind (ih hmid hadmitsRest hbelowRest) fun back _ _ _ _ hlast => .pure _ hlast

/-- Whole renders of related nodes from related states give the same, if all lookups of the first
one are admitted. The induction is on the levels that are left. -/
theorem nodes (hsteps : c.Steps env Admits) {levels : Nat} {body body' : List Node}
    (hbody : c.Bodies body body') (hst : c.States st st')
    (hadmits : ∀ l ∈ lookups env levels body st, Admits l) :
    c.Couples (Render.nodes env (nested env levels) body)
      (Render.nodes env (nested env levels) body') st st' := by
  induction levels generalizing body body' st st' with
  | zero =>
    refine hsteps.row (.nested env 0) (.nested env 0) hbody hst
      (fun l hl => hadmits l (mem_lookups_of_mem_nodesLookups hl)) ?_
    intro d _ body' st' _ hd
    exact .deeper hd fun _ => .ofResult _ ⟨hd.scope, hd.fragments, by rw [hd.depth], hd.cache⟩
  | succ levels ih =>
    refine hsteps.row (.nested env (levels + 1)) (.nested env (levels + 1)) hbody hst
      (fun l hl => hadmits l (mem_lookups_of_mem_nodesLookups hl)) ?_
    intro d hmem body' st' hbody hd
    refine .deeper hd fun hdepth => ih hbody
      ⟨hd.scope, hd.fragments, by rw [hd.depth], hd.cache⟩ fun l hl => ?_
    exact hadmits l (mem_lookups_of_mem_descent hmem hdepth hl)

end Steps

end Coupling

end Stencil.Render
