import Stencil.Proofs.Helper.Errors
import Stencil.Proofs.Render.Levels
import Stencil.Proofs.Template.Faults

/-!
# Where the errors of a render come from

An error of a render is one that the renderer makes itself, one of a helper, or one that comes up
from the next level. If all of these have some property, then every error of the render has it.

## Main definitions

* `Error.OfSource` - the errors of finding and reading templates
* `Render.OwnErrors`, `Render.TagErrors` - the errors that the renderer makes itself, or makes for a
  tag, have a property
* `Render.nodeProgram?` - the course of action of the helper that a node calls
* `Render.executed` - the nodes that are rendered, up to the first one that fails

Main statement: `Render.failsWith_visits`.
-/

namespace Stencil

/-! ### Finding and reading templates -/

/-- The errors of finding a template, reading its text, and keeping its tree. -/
def Error.OfSource : Error → Prop
  | .parse _ _ => True
  | .notFound _ => True
  | .cache _ _ => True
  | .io => True
  | _ => False

theorem Loader.failsWith_load (loader : Loader) (name : String) :
    FailsWith Error.OfSource (loader.load name) := by
  cases loader with
  | verbatim => exact .ok _
  | table templates =>
    show FailsWith _ (templates.load name)
    unfold TemplateTable.load
    split
    · exact .ok _
    · exact .error trivial
  | directory loader =>
    show FailsWith _ (loader.load name)
    unfold DirectoryLoader.load
    split
    · exact .error trivial
    · split
      · exact .ok _
      · exact .error trivial
      · exact .error trivial

theorem DiskCache.failsWith_get (c : DiskCache) (key : String) :
    FailsWith Error.OfSource (c.get key) := by
  unfold DiskCache.get
  split
  · exact .error trivial
  · split
    · exact .ok _
    · split
      · exact .ok _
      · split
        · exact .ok _
        · exact .error trivial
      · exact .error trivial

theorem DiskCache.failsWith_set (c : DiskCache) (key : String) (t : Template) :
    FailsWith Error.OfSource (c.set key t).1 := by
  unfold DiskCache.set
  split
  · exact .error trivial
  · split
    · dsimp only
      split
      · exact .error trivial
      · split
        · exact .error trivial
        · exact .ok _
    · exact .error trivial

theorem Template.failsWith_parse (source : String) :
    FailsWith Error.OfSource (Template.parse source) :=
  (Template.failsByFault_parse source).mono fun _ ⟨_, _, he⟩ => he ▸ trivial

theorem Cache.failsWith_compile (c : Cache) (source : String) :
    FailsWith Error.OfSource (c.compile source).1 := by
  have hget (key : String) : FailsWith Error.OfSource (c.get key) := by
    cases c with
    | none => exact .ok _
    | memory cache => exact .ok _
    | disk cache => exact cache.failsWith_get key
  have hset (key : String) (t : Template) : FailsWith Error.OfSource (c.set key t).1 := by
    cases c with
    | none => exact .ok _
    | memory cache => exact .ok _
    | disk cache => exact cache.failsWith_set key t
  have hparse := Template.failsWith_parse source
  unfold Cache.compile
  split
  · exact hparse
  · dsimp only
    split
    · next e he => exact .error (hget _ e he)
    · exact .ok _
    · split
      · next e he => exact .error (hparse e he)
      · next t _ =>
        split
        · next e c' he => exact .error (hset _ t e (by rw [he]))
        · exact .ok _

/-- The call that a node is of; texts and partials are none. -/
def Node.call? : Node → Option Call
  | .output call _ => some call
  | .inline call => some call
  | .block call _ => some call
  | _ => none

namespace Render

variable {α β : Type} {P : Error → Prop} {env : RenderEnv} {below : Nested} {st : RenderState}

/-- The course of action of the helper that a node calls, if it calls one. -/
def nodeProgram? (env : RenderEnv) (scope : Scope) : Node → Option (Program String)
  | .output call _ => helperProgram? env call [] scope
  | .inline call => helperProgram? env call [] scope
  | .block call branches => helperProgram? env call branches scope
  | _ => none

theorem exists_call_of_nodeProgram? {scope : Scope} {n : Node} {program : Program String}
    (h : program ∈ nodeProgram? env scope n) :
    ∃ call ∈ n.call?, ∃ helper isBlock, env.helpers.find? call.name = some helper ∧
      program = helper.run (call.invocation isBlock scope) := by
  have hcall {call : Call} {branches : List (Branch Node)}
      (h : program ∈ helperProgram? env call branches scope) :
      ∃ helper isBlock, env.helpers.find? call.name = some helper ∧
        program = helper.run (call.invocation isBlock scope) := by
    obtain ⟨helper, hfind, rfl⟩ := Option.map_eq_some_iff.1 h
    exact ⟨helper, _, hfind, rfl⟩
  cases n with
  | text body => simp [nodeProgram?] at h
  | raw body => simp [nodeProgram?] at h
  | output call escaped => exact ⟨call, rfl, hcall h⟩
  | inline call => exact ⟨call, rfl, hcall h⟩
  | block call branches => exact ⟨call, rfl, hcall h⟩
  | partialTag name context line => simp [nodeProgram?] at h

/-- The nodes that are rendered, one after another up to the first one that fails. -/
def executed (env : RenderEnv) (below : Nested) : List Node → RenderState → List Node
  | [], _ => []
  | first :: rest, st =>
    first ::
      match node env below first st with
      | (.ok _, st) => executed env below rest st
      | (.error _, _) => []

/-- The nodes that are rendered at a place. -/
def Visit.executed (env : RenderEnv) (v : Visit) : List Node :=
  Render.executed env (nested env v.levels) v.body v.state

/-- The errors that the renderer makes itself satisfy `P`: that a name means nothing, that a partial
is not found or cannot be read, and that the limit is reached. -/
structure OwnErrors (P : Error → Prop) : Prop where
  unknown : ∀ name, P (.unknownHelper name)
  source : ∀ e, e.OfSource → P e
  limit : P (.render (.nesting maxDepth))

/-- The errors that the renderer makes itself for a tag satisfy `P`: that a name means nothing, and
that a partial is not found or cannot be read. -/
structure TagErrors (P : Error → Prop) : Prop where
  unknown : ∀ name, P (.unknownHelper name)
  source : ∀ e, e.OfSource → P e

theorem OwnErrors.tags (hown : OwnErrors P) : TagErrors P :=
  ⟨hown.unknown, hown.source⟩

/-- What is rendered on the next level for a list of descents only fails with errors that
satisfy `P`. -/
def DescentsFailWith (P : Error → Prop) (below : Nested) (descents : List Descent) : Prop :=
  ∀ d ∈ descents, FailsWith P (below d.body d.state).1

/-! ### Steps -/

theorem failsWith_bind {x : Render α} {f : α → Render β} (hx : FailsWith P (x st).1)
    (hf : ∀ a st', x st = (.ok a, st') → FailsWith P (f a st').1) :
    FailsWith P ((x >>= f) st).1 := by
  show FailsWith P (Render.bind x f st).1
  unfold Render.bind
  split
  · next a st' hstep => exact hf a st' hstep
  · next e st' hstep => exact .error (hx e (by rw [hstep]))

theorem failsWith_deeper {x : Render α}
    (hlimit : maxDepth ≤ st.depth → P (.render (.nesting maxDepth)))
    (hx : st.depth < maxDepth → FailsWith P (x { st with depth := st.depth + 1 }).1) :
    FailsWith P (deeper x st).1 := by
  unfold deeper
  split
  · next hfull => exact .error (hlimit hfull)
  · next hdepth => exact hx (Nat.lt_of_not_le hdepth)

theorem failsWith_answer {branches : List (Branch Node)} {request : Request}
    (h : DescentsFailWith P below (requestDescent? branches st request).toList) :
    FailsWith P (answer below branches request st).1 := by
  cases request with
  | body frame =>
    show FailsWith P (within frame (below (mainBody branches)) st).1
    rw [within_fst]
    exact h ⟨mainBody branches, st.enter frame⟩ (.head _)
  | inverse frame =>
    show FailsWith P (within frame (inverse below branches.tail) st).1
    rw [within_fst, inverse_eq]
    cases hchosen : chosen? (st.enter frame).scope branches.tail with
    | none => exact .ok ""
    | some branch => exact h ⟨branch.body, st.enter frame⟩ (by simp [requestDescent?, hchosen])
  | define name => exact .ok ""
  | invoke name =>
    show FailsWith P (invoke below name st).1
    unfold invoke
    cases hfragment : st.fragments.find? name with
    | none => exact .ok ""
    | some body => exact h ⟨body, st⟩ (by simp [requestDescent?, hfragment])

theorem failsWith_run {branches : List (Branch Node)} {program : Program α}
    (hprogram : program.FailsWith P)
    (h : DescentsFailWith P below (programDescents below branches program st)) :
    FailsWith P (run (answer below branches) program st).1 := by
  induction hprogram generalizing st with
  | done hresult => exact hresult
  | @ask request next _ ih =>
    have hanswer : FailsWith P (answer below branches request st).1 :=
      failsWith_answer fun d hd => h d (List.mem_append_left _ hd)
    exact ih _ hanswer fun d hd => h d (List.mem_append_right _ hd)

/-! ### Nodes -/

section Nodes

variable (hown : TagErrors P)
include hown

theorem failsWith_output {call : Call} {escaped : Bool}
    (hprogram : ∀ program ∈ nodeProgram? env st.scope (.output call escaped), program.FailsWith P)
    (h : DescentsFailWith P below (nodeDescents env below st (.output call escaped))) :
    FailsWith P (output env below call escaped st).1 := by
  unfold output
  cases hhelper : env.helpers.find? call.name with
  | some helper =>
    simp only [nodeProgram?, nodeDescents, helperProgram?, hhelper] at hprogram h
    exact failsWith_bind (failsWith_run (hprogram _ rfl) h) fun text st' _ => .ok _
  | none =>
    dsimp only
    split
    · exact .error (hown.unknown call.name)
    · refine failsWith_bind (.ok _) fun value st' _ => ?_
      cases value with
      | none => exact .ok ""
      | some value => exact .ok _

theorem failsWith_inline {call : Call}
    (hprogram : ∀ program ∈ nodeProgram? env st.scope (.inline call), program.FailsWith P)
    (h : DescentsFailWith P below (nodeDescents env below st (.inline call))) :
    FailsWith P (inline env below call st).1 := by
  unfold inline
  cases hhelper : env.helpers.find? call.name with
  | some helper =>
    simp only [nodeProgram?, nodeDescents, helperProgram?, hhelper] at hprogram h
    exact failsWith_run (hprogram _ rfl) h
  | none =>
    refine failsWith_bind (.ok _) fun value st' _ => ?_
    cases value with
    | none => exact .error (hown.unknown call.name)
    | some value =>
      dsimp only
      split
      · exact .error (hown.unknown call.name)
      · exact .ok _

theorem failsWith_block {call : Call} {branches : List (Branch Node)}
    (hprogram : ∀ program ∈ nodeProgram? env st.scope (.block call branches), program.FailsWith P)
    (h : DescentsFailWith P below (nodeDescents env below st (.block call branches))) :
    FailsWith P (block env below call branches st).1 := by
  unfold block
  cases hhelper : env.helpers.find? call.name with
  | some helper =>
    simp only [nodeProgram?, nodeDescents, blockProgram?, helperProgram?, hhelper] at hprogram h
    exact failsWith_run (hprogram _ rfl) h
  | none =>
    simp only [nodeDescents, blockProgram?, helperProgram?, variableProgram?, hhelper] at h
    refine failsWith_bind (.ok _) fun value st' hvalue => ?_
    obtain ⟨rfl, rfl⟩ : st.scope.resolveSliced? call.path = value ∧ st = st' := by
      simpa [readScope] using hvalue
    cases hvalue : st.scope.resolveSliced? call.path with
    | none => exact .error (hown.unknown call.name)
    | some value =>
      dsimp only
      split
      · exact .error (hown.unknown call.name)
      · next hargs =>
        simp only [hargs, hvalue] at h
        exact failsWith_run (Helper.failsWith_variableBlock _ value) h

theorem failsWith_partialTag {name : String} {context : Option Param} {line : Nat}
    (h : DescentsFailWith P below (nodeDescents env below st (.partialTag name context line))) :
    FailsWith P (partialTag env below name context st).1 := by
  unfold partialTag
  have hload : FailsWith P (env.partials.load name) :=
    (env.partials.failsWith_load name).mono hown.source
  refine failsWith_bind hload fun source st' hsource => ?_
  have hcompile : FailsWith P (st'.cache.compile source.source).1 :=
    (st'.cache.failsWith_compile source.source).mono hown.source
  refine failsWith_bind hcompile fun template st'' htemplate => ?_
  obtain ⟨hload, rfl⟩ : env.partials.load name = .ok source ∧ st = st' := by
    simpa [ofResult] using hsource
  show FailsWith P (within _ (below template.nodes) st'').1
  rw [within_fst]
  refine h ⟨template.nodes, st''.enter _⟩ ?_
  simp [nodeDescents, partialDescent?, hload, htemplate]

/-- The errors of a node are those of the renderer, of its helper, and of what is rendered on the
next level. -/
theorem failsWith_node (n : Node)
    (hprogram : ∀ program ∈ nodeProgram? env st.scope n, program.FailsWith P)
    (h : DescentsFailWith P below (nodeDescents env below st n)) :
    FailsWith P (node env below n st).1 := by
  cases n with
  | text body => exact .ok body
  | raw body => exact .ok body
  | output call escaped => exact failsWith_output hown hprogram h
  | inline call => exact failsWith_inline hown hprogram h
  | block call branches => exact failsWith_block hown hprogram h
  | partialTag name context line => exact failsWith_partialTag hown h

theorem failsWith_nodes (hbelow : ∀ body, Balanced (below body)) (body : List Node)
    (hprogram : ∀ n ∈ executed env below body st,
      ∀ program ∈ nodeProgram? env st.scope n, program.FailsWith P)
    (h : DescentsFailWith P below (nodesDescents env below body st)) :
    FailsWith P (nodes env below body st).1 := by
  induction body generalizing st with
  | nil => exact .ok ""
  | cons first rest ih =>
    have hfirst := failsWith_node hown first (hprogram first (.head _))
      fun d hd => h d (List.mem_append_left _ hd)
    refine failsWith_bind hfirst fun front st' hstep => ?_
    -- The later nodes find the scope that the first one has found.
    have hscope : st'.scope = st.scope := by
      have hkept : (node env below first st).2.scope = st.scope :=
        (Balanced.node hbelow first st).1
      rwa [hstep] at hkept
    simp only [executed, nodesDescents, hstep] at hprogram h
    refine failsWith_bind (ih ?_ ?_) fun back st'' _ => .ok _
    · rw [hscope]
      exact fun n hn => hprogram n (.tail _ hn)
    · exact fun d hd => h d (List.mem_append_right _ hd)

end Nodes

/-- If the helpers of all nodes that are rendered on the way only add errors that satisfy `P`, then
only such errors come out, by induction on the levels that are left. -/
theorem failsWith_visits (hown : OwnErrors P) {levels : Nat} {body : List Node}
    (hprogram : ∀ v ∈ visits env levels body st, ∀ n ∈ v.executed env,
      ∀ program ∈ nodeProgram? env v.state.scope n, program.FailsWith P) :
    FailsWith P (nodes env (nested env levels) body st).1 := by
  induction levels generalizing body st with
  | zero =>
    refine failsWith_nodes hown.tags (.nested env 0) body (hprogram _ (self_mem_visits ..)) ?_
    exact fun d _ => failsWith_deeper (fun _ => hown.limit) fun _ => .error hown.limit
  | succ levels ih =>
    refine failsWith_nodes hown.tags (.nested env (levels + 1)) body
      (hprogram _ (self_mem_visits ..)) fun d hd => ?_
    refine failsWith_deeper (fun _ => hown.limit) fun hdepth => ih fun v hv => ?_
    exact hprogram v (mem_visits_of_mem_descent hd hdepth hv)

end Render

end Stencil
