import Stencil.Proofs.Helper.Requests
import Stencil.Proofs.Render.Expansion
import Stencil.Proofs.Render.Trace

/-!
# Fragments that are stored and rendered

At each place of a render the table of fragments has what the tags `define` in front of it have
stored, in whatever frame, turn of a loop, fragment or partial they were. A tag `invoke` therefore
renders the nodes that the latest `define` of its name has stored, in the scope of its own place.

## Main definitions

* `Call.fragmentName?`, `Node.stored?` - the name of a fragment, and the fragment that a node stores
* `Render.latest?` - the nodes that have been stored last under a name
* `Render.Tracks` - steps that find the fragments that the steps in front of them have stored

Main statement: `Render.invoke_latest`.
-/

namespace Stencil

/-- The name of the fragment that a tag stores or renders: its first argument as it is written. -/
def Call.fragmentName? (call : Call) : Option String :=
  call.params.head?.bind Param.rawText?

/-- The fragment that a node stores, with its name. -/
def Node.stored? (n : Node) : Option (String × List Node) :=
  n.tag?.bind fun (call, branches) =>
    if call.name = "define" then call.fragmentName?.map (·, Render.mainBody branches) else none

namespace Render

/-- What a tag writes for the text of its helper: only output tags escape it. -/
def written (env : RenderEnv) : Node → String → String
  | .output _ escaped => write env escaped
  | _ => id

/-- The nodes that a step stores under a name. -/
def Step.stored? (name : String) (s : Step) : Option (List Node) :=
  s.node.stored?.bind fun (stored, body) => if stored = name then some body else none

/-- The nodes that the last one of the steps with this name has stored. -/
def latest? (name : String) (steps : List Step) : Option (List Node) :=
  steps.reverse.findSome? (Step.stored? name)

/-- The fragments behind what a node stores itself. -/
def Step.fragments (s : Step) : Entries (List Node) :=
  match s.node.stored? with
  | some (name, body) => s.state.fragments.insert name body
  | none => s.state.fragments

/-- Steps that start with one table of fragments and end with another: each of them finds what the
ones in front of it have left. -/
inductive Tracks : Entries (List Node) → List Step → Entries (List Node) → Prop where
  | nil (table : Entries (List Node)) : Tracks table [] table
  | cons {s : Step} {rest : List Step} {table : Entries (List Node)}
      (hrest : Tracks s.fragments rest table) : Tracks s.state.fragments (s :: rest) table

/-! ### Tables behind steps -/

namespace Tracks

variable {table table' table'' : Entries (List Node)} {steps steps' : List Step}

theorem append (h : Tracks table steps table') (h' : Tracks table' steps' table'') :
    Tracks table (steps ++ steps') table'' := by
  induction h with
  | nil table => exact h'
  | cons _ ih => exact .cons (ih h')

/-- A step within others finds what those in front of it have left. -/
theorem front {before after : List Step} {s : Step}
    (h : Tracks table (before ++ s :: after) table') :
    Tracks table before s.state.fragments := by
  induction before generalizing table with
  | nil =>
    cases h with
    | cons _ => exact .nil _
  | cons first before ih =>
    cases h with
    | cons hrest => exact .cons (ih hrest)

end Tracks

theorem Step.find?_fragments (name : String) (s : Step) :
    s.fragments.find? name = (s.stored? name).or (s.state.fragments.find? name) := by
  unfold Step.fragments Step.stored?
  cases s.node.stored? with
  | none => rfl
  | some entry =>
    obtain ⟨stored, body⟩ := entry
    dsimp only [Option.bind_some]
    by_cases hname : stored = name
    · subst hname
      rw [if_pos rfl, Entries.find?_insert_self]
      rfl
    · rw [if_neg hname, Entries.find?_insert_of_ne (Ne.symm hname)]
      rfl

theorem latest?_cons (name : String) (s : Step) (rest : List Step) :
    latest? name (s :: rest) = (latest? name rest).or (s.stored? name) := by
  simp only [latest?, List.reverse_cons, List.findSome?_append, List.findSome?_singleton]

/-- What a table has behind steps is what has been stored last, or what was there before. -/
theorem Tracks.find?_eq {table table' : Entries (List Node)} {steps : List Step}
    (h : Tracks table steps table') (name : String) :
    table'.find? name = (latest? name steps).or (table.find? name) := by
  induction h with
  | nil table => rfl
  | cons _ ih => rw [ih, Step.find?_fragments, latest?_cons, Option.or_assoc]

/-! ### Tags -/

variable {α : Type} {env : RenderEnv} {below : Nested} {inside : Descent → List Step}
  {st : RenderState} {n : Node} {call : Call} {branches : List (Branch Node)} {helper : Helper}

/-- A tag writes the text of its helper. -/
theorem node_tag (htag : n.tag? = some (call, branches))
    (hfind : env.helpers.find? call.name = some helper) :
    node env below n st =
      ((callHelper below helper call branches st).1.map (written env n),
        (callHelper below helper call branches st).2) := by
  have hkept (call : Call) (branches : List (Branch Node)) :
      callHelper below helper call branches st =
        ((callHelper below helper call branches st).1.map id,
          (callHelper below helper call branches st).2) := by
    rw [Except.map_id]
    rfl
  cases n with
  | output call' escaped =>
    cases htag
    simp only [node, output, hfind]
    show Render.bind (callHelper below helper call []) _ st = _
    unfold Render.bind
    cases callHelper below helper call [] st with
    | mk result st' =>
      cases result with
      | error e => rfl
      | ok text => rfl
  | inline call' =>
    cases htag
    simp only [node, inline, hfind]
    exact hkept call []
  | block call' branches' =>
    cases htag
    simp only [node, block, hfind]
    exact hkept call branches
  | text body => cases htag
  | raw body => cases htag
  | partialTag name context line => cases htag

theorem nodeDescents_tag (htag : n.tag? = some (call, branches))
    (hfind : env.helpers.find? call.name = some helper) :
    nodeDescents env below st n = programDescents below branches
      (helper.run (call.invocation (!branches.isEmpty) st.scope)) st := by
  cases n with
  | output call' escaped =>
    cases htag
    simp only [nodeDescents, helperProgram?, hfind]
    rfl
  | inline call' =>
    cases htag
    simp only [nodeDescents, helperProgram?, hfind]
    rfl
  | block call' branches' =>
    cases htag
    simp only [nodeDescents, blockProgram?, helperProgram?, hfind]
    rfl
  | text body => cases htag
  | raw body => cases htag
  | partialTag name context line => cases htag

theorem rawParam?_invocation (call : Call) (isBlock : Bool) (scope : Scope) :
    (call.invocation isBlock scope).rawParam? 0 = call.fragmentName? := by
  obtain ⟨name, path, params, hash, line⟩ := call
  cases params with
  | nil => rfl
  | cons param params => rfl

/-- A tag `invoke` renders the fragment of its name. -/
theorem callHelper_invoke {name : String} (hname : call.fragmentName? = some name) :
    callHelper below Helper.invoke call branches st = invoke below name st := by
  have hraw := (rawParam?_invocation call (!branches.isEmpty) st.scope).trans hname
  have hrun : Helper.invoke.run (call.invocation (!branches.isEmpty) st.scope) =
      Program.request (.invoke name) := by
    simp only [Helper.invoke, Helper.fragmentName, hraw]
    rfl
  show run _ (Helper.invoke.run (call.invocation (!branches.isEmpty) st.scope)) st = _
  rw [hrun]
  rfl

/-! ### Steps find what has been stored -/

/-- What is rendered for a descent finds the fragments of the descent. -/
def Keeps (below : Nested) (inside : Descent → List Step) (d : Descent) : Prop :=
  Tracks d.state.fragments (inside d) (below d.body d.state).2.fragments

theorem within_fragments (frame : Option Frame) (x : Render α) (st : RenderState) :
    (within frame x st).2.fragments = (x (st.enter frame)).2.fragments := by
  cases frame with
  | none => rfl
  | some frame => rfl

theorem enter_fragments (frame : Option Frame) (st : RenderState) :
    (st.enter frame).fragments = st.fragments := by
  cases frame with
  | none => rfl
  | some frame => rfl

theorem tracks_request {request : Request} (hrequest : ∀ name, request ≠ .define name)
    (h : ∀ d ∈ requestDescent? branches st request, Keeps below inside d) :
    Tracks st.fragments ((requestDescent? branches st request).toList.flatMap inside)
      (answer below branches request st).2.fragments := by
  cases request with
  | body frame =>
    have hbody := h _ rfl
    unfold Keeps at hbody
    simpa [requestDescent?, answer, within_fragments, enter_fragments] using hbody
  | inverse frame =>
    simp only [requestDescent?, answer, within_fragments] at h ⊢
    rw [inverse_eq, ← enter_fragments frame st]
    cases hchosen : chosen? (st.enter frame).scope branches.tail with
    | none => exact .nil _
    | some branch =>
      have hbody := h ⟨branch.body, st.enter frame⟩ (by rw [hchosen]; rfl)
      simpa [Keeps] using hbody
  | define name => exact absurd rfl (hrequest name)
  | invoke name =>
    simp only [requestDescent?, answer, invoke] at h ⊢
    cases hfragment : st.fragments.find? name with
    | none => exact .nil _
    | some body =>
      have hbody := h ⟨body, st⟩ (by rw [hfragment]; rfl)
      simpa [Keeps] using hbody

/-- A helper that stores nothing: what it finds was stored in front of it, or inside of what it
asks for. -/
theorem tracks_program {program : Program α}
    (hasks : program.Asks fun request => ∀ name, request ≠ .define name)
    (h : ∀ d ∈ programDescents below branches program st, Keeps below inside d) :
    Tracks st.fragments ((programDescents below branches program st).flatMap inside)
      (run (answer below branches) program st).2.fragments := by
  induction hasks generalizing st with
  | done result => exact .nil _
  | @ask request next hrequest herror _ ih =>
    simp only [programDescents, List.forall_mem_append, Option.mem_toList] at h
    obtain ⟨hfirst, hnext⟩ := h
    have hfront := tracks_request hrequest hfirst
    simp only [programDescents, List.flatMap_append, run]
    refine hfront.append ?_
    cases hstep : answer below branches request st with
    | mk result st' =>
      rw [hstep] at hnext
      cases result with
      | ok text => exact ih text hnext
      | error e =>
        dsimp only
        rw [herror e]
        exact .nil _

theorem tracks_helper (hhelpers : env.helpers = Registry.builtin)
    (htag : n.tag? = some (call, branches)) (hfind : env.helpers.find? call.name = some helper)
    (h : ∀ d ∈ nodeDescents env below st n, Keeps below inside d) :
    Tracks (Step.fragments ⟨n, st⟩) ((nodeDescents env below st n).flatMap inside)
      (node env below n st).2.fragments := by
  rw [node_tag htag hfind]
  rw [nodeDescents_tag htag hfind] at h ⊢
  rw [hhelpers] at hfind
  by_cases hname : call.name = "define"
  · obtain rfl : Helper.define = helper := by
      rw [hname] at hfind
      exact Option.some.inj hfind
    have hraw := rawParam?_invocation call (!branches.isEmpty) st.scope
    show Tracks _ _
      (run (answer below branches) (Helper.define.run (call.invocation _ st.scope)) st).2.fragments
    simp only [Step.fragments, Node.stored?, htag, hname, Option.bind_some, if_true, Helper.define,
      Helper.fragmentName, hraw]
    cases call.fragmentName? with
    | none => exact .nil _
    | some name => exact .nil _
  · have hstored : n.stored? = none := by simp [Node.stored?, htag, hname]
    simp only [Step.fragments, hstored]
    refine tracks_program (Helper.asks_builtin ?_ ?_ ?_ ?_ hfind _) h
    · exact fun _ _ => Request.noConfusion
    · exact fun _ _ => Request.noConfusion
    · exact fun hdefine => absurd hdefine hname
    · exact fun _ _ _ => Request.noConfusion

theorem readScope_bind {β : Type} (f : Scope → α) (g : α → Render β) (st : RenderState) :
    (readScope f >>= g) st = g (f st.scope) st := rfl

theorem output_variable (hfind : env.helpers.find? call.name = none) (escaped : Bool) :
    (output env below call escaped st).2 = st := by
  simp only [output, hfind]
  split
  · rfl
  · rw [readScope_bind]
    cases st.scope.resolveSliced? call.path with
    | none => rfl
    | some value => rfl

theorem inline_variable (hfind : env.helpers.find? call.name = none) :
    (inline env below call st).2 = st := by
  simp only [inline, hfind, readScope_bind]
  cases st.scope.resolveSliced? call.path with
  | none => rfl
  | some value =>
    dsimp only
    split
    · rfl
    · rfl

/-- A block whose name is no helper renders nothing, or it is one for the value of a variable. -/
theorem block_variable (below : Nested) (branches : List (Branch Node)) (st : RenderState)
    (hfind : env.helpers.find? call.name = none) :
    nodeDescents env below st (.block call branches) = [] ∧
        (node env below (.block call branches) st).2 = st ∨
      ∃ value, let program :=
          Helper.variableBlock (call.invocation (!branches.isEmpty) st.scope) value
        nodeDescents env below st (.block call branches) =
            programDescents below branches program st ∧
          node env below (.block call branches) st = run (answer below branches) program st := by
  simp only [nodeDescents, blockProgram?, helperProgram?, variableProgram?, node, block, hfind,
    readScope_bind]
  cases st.scope.resolveSliced? call.path with
  | none =>
    refine .inl ⟨?_, rfl⟩
    cases call.hasArguments with
    | true => rfl
    | false => rfl
  | some value =>
    cases call.hasArguments with
    | true => exact .inl ⟨rfl, rfl⟩
    | false => exact .inr ⟨value, rfl, rfl⟩

theorem tracks_block (hfind : env.helpers.find? call.name = none)
    (h : ∀ d ∈ nodeDescents env below st (.block call branches), Keeps below inside d) :
    Tracks st.fragments ((nodeDescents env below st (.block call branches)).flatMap inside)
      (node env below (.block call branches) st).2.fragments := by
  rcases block_variable below branches st hfind with
    ⟨hdescents, hstate⟩ | ⟨value, hdescents, hnode⟩
  · rw [hdescents, hstate]
    exact .nil _
  · rw [hdescents] at h ⊢
    rw [hnode]
    refine tracks_program (Helper.asks_variableBlock ?_ ?_ _ value) h
    · exact fun _ _ => Request.noConfusion
    · exact fun _ _ => Request.noConfusion

/-- A partial stores nothing but what its own nodes do. -/
theorem tracks_partial {name : String} {context : Option Param} {line : Nat}
    (h : ∀ d ∈ nodeDescents env below st (.partialTag name context line), Keeps below inside d) :
    Tracks st.fragments ((nodeDescents env below st (.partialTag name context line)).flatMap inside)
      (node env below (.partialTag name context line) st).2.fragments := by
  simp only [nodeDescents, partialDescent?] at h ⊢
  show Tracks _ _ (Render.bind (ofResult (env.partials.load name)) _ st).2.fragments
  unfold Render.bind ofResult
  cases hload : env.partials.load name with
  | error e => exact .nil _
  | ok source =>
    rw [hload] at h
    dsimp only at h ⊢
    show Tracks _ _ (Render.bind (compile source.source) _ st).2.fragments
    unfold Render.bind
    have hcompile : (compile source.source st).2.fragments = st.fragments := rfl
    cases hstep : compile source.source st with
    | mk result st' =>
      rw [hstep] at h hcompile
      rw [← hcompile]
      cases result with
      | error e => exact .nil _
      | ok t =>
        dsimp only at h ⊢
        rw [readScope_bind, within_fragments, ← enter_fragments]
        simpa [Keeps] using h _ (.head _)

/-- Only a tag of a helper stores a fragment. -/
theorem stored?_of_variable (hhelpers : env.helpers = Registry.builtin) (n : Node)
    (htag : n.tag? = some (call, branches)) (hfind : env.helpers.find? call.name = none) :
    n.stored? = none := by
  have hname : call.name ≠ "define" := by
    intro hname
    rw [hhelpers, hname] at hfind
    cases hfind
  simp [Node.stored?, htag, hname]

/-- What is rendered for a node finds what has been stored in front of it. -/
theorem tracks_node (hhelpers : env.helpers = Registry.builtin)
    (h : ∀ d ∈ nodeDescents env below st n, Keeps below inside d) :
    Tracks (Step.fragments ⟨n, st⟩) ((nodeDescents env below st n).flatMap inside)
      (node env below n st).2.fragments := by
  cases n with
  | text body => exact .nil _
  | raw body => exact .nil _
  | output call escaped =>
    cases hfind : env.helpers.find? call.name with
    | some helper => exact tracks_helper hhelpers rfl hfind h
    | none =>
      simp only [Step.fragments, stored?_of_variable hhelpers (.output call escaped) rfl hfind,
        nodeDescents, helperProgram?, hfind, node, output_variable hfind escaped]
      exact .nil _
  | inline call =>
    cases hfind : env.helpers.find? call.name with
    | some helper => exact tracks_helper hhelpers rfl hfind h
    | none =>
      simp only [Step.fragments, stored?_of_variable hhelpers (.inline call) rfl hfind,
        nodeDescents, helperProgram?, hfind, node, inline_variable hfind]
      exact .nil _
  | block call branches =>
    cases hfind : env.helpers.find? call.name with
    | some helper => exact tracks_helper hhelpers rfl hfind h
    | none =>
      simp only [Step.fragments, stored?_of_variable hhelpers (.block call branches) rfl hfind]
      exact tracks_block hfind h
  | partialTag name context line => exact tracks_partial h

/-- The state behind nodes: that of the last one, or of the first one that fails. -/
theorem nodes_cons_state (first : Node) (rest : List Node) (st : RenderState) :
    (nodes env below (first :: rest) st).2 =
      match node env below first st with
      | (.ok _, st) => (nodes env below rest st).2
      | (.error _, st) => st := by
  show (Render.bind (node env below first) (fun front =>
    Render.bind (nodes env below rest) fun back => Render.ofResult (.ok (front ++ back))) st).2 = _
  unfold Render.bind
  cases node env below first st with
  | mk result st' =>
    cases result with
    | error e => rfl
    | ok text =>
      dsimp only
      cases nodes env below rest st' with
      | mk result st'' =>
        cases result with
        | error e => rfl
        | ok text => rfl

theorem tracks_row (hhelpers : env.helpers = Registry.builtin) {body : List Node}
    (h : ∀ d ∈ nodesDescents env (nested env maxDepth) body st,
      Keeps (nested env maxDepth) inside d) :
    Tracks st.fragments (row env inside body st)
      (nodes env (nested env maxDepth) body st).2.fragments := by
  induction body generalizing st with
  | nil => exact .nil _
  | cons first rest ih =>
    simp only [nodesDescents, List.forall_mem_append] at h
    obtain ⟨hfirst, hrest⟩ := h
    rw [nodes_cons_state]
    refine (Tracks.cons (tracks_node hhelpers hfirst)).append ?_
    cases hstep : node env (nested env maxDepth) first st with
    | mk result st' =>
      rw [hstep] at hrest
      cases result with
      | error e => exact .nil _
      | ok text => exact ih hrest

/-- All steps of a render find what has been stored in front of them, by induction on the levels. -/
theorem tracks_trace (hhelpers : env.helpers = Registry.builtin) {levels : Nat} {body : List Node}
    (hlevels : maxDepth ≤ levels + st.depth) :
    Tracks st.fragments (trace env levels body st)
      (nodes env (nested env maxDepth) body st).2.fragments := by
  have hnested (d : Descent) : (nested env maxDepth d.body d.state).2.fragments =
      if d.state.depth < maxDepth then
        (nodes env (nested env maxDepth) d.body
          { d.state with depth := d.state.depth + 1 }).2.fragments
      else d.state.fragments := by
    rw [recurs_nested env d.body, deeper]
    by_cases hdepth : maxDepth ≤ d.state.depth
    · rw [if_pos hdepth, if_neg (Nat.not_lt_of_le hdepth)]
    · rw [if_neg hdepth, if_pos (Nat.lt_of_not_le hdepth)]
  induction levels generalizing body st with
  | zero =>
    refine tracks_row hhelpers fun d hd => ?_
    have hkept := (descends_of_mem_nodesDescents (.nested env maxDepth) body hd).2
    unfold Keeps
    rw [hnested, if_neg (by omega)]
    exact .nil _
  | succ levels ih =>
    refine tracks_row hhelpers fun d hd => ?_
    have hkept := (descends_of_mem_nodesDescents (.nested env maxDepth) body hd).2
    unfold Keeps
    rw [hnested]
    dsimp only
    split
    · have hlevels' : maxDepth ≤ levels + (d.state.depth + 1) := by omega
      exact @ih { d.state with depth := d.state.depth + 1 } d.body hlevels'
    · exact .nil _

/-- **Fragments.** In a render with the built-in helpers, let a tag `invoke` have a name. It writes
what its helper gives, which is as follows:

* if tags `define` with the same name are among the steps in front of it, on whatever level, it
  gives what a block `if true` at its own place gives whose body has the nodes of the last one of
  them, and leaves the same state;
* if there is none, it gives the empty text and changes nothing. -/
theorem invoke_latest (hhelpers : env.helpers = Registry.builtin) {t : Template} {data : Value}
    {dataVariables : Bool} {cache : Cache} {before after : List Step} {s : Step} {name : String}
    (htrace : templateTrace env t ⟨Scope.ofRoot data dataVariables, [], 0, cache⟩ =
      before ++ s :: after)
    (htag : s.node.tag? = some (call, branches)) (hinvoke : call.name = "invoke")
    (hname : call.fragmentName? = some name) :
    let below := nested env maxDepth
    let answer := callHelper below Helper.invoke call branches s.state
    node env below s.node s.state = (answer.1.map (written env s.node), answer.2) ∧
      (∀ body line, latest? name before = some body →
        answer = node env below (.ifTrue line body) s.state) ∧
      (latest? name before = none → answer = (.ok "", s.state)) := by
  intro below answer
  have hfind : env.helpers.find? call.name = some Helper.invoke := by
    rw [hhelpers, hinvoke]
    rfl
  let start : RenderState := ⟨Scope.ofRoot data dataVariables, [], 0, cache⟩
  have htracks : Tracks start.fragments (templateTrace env t start)
      (nodes env (nested env maxDepth) t.nodes start).2.fragments :=
    tracks_trace hhelpers (Nat.le_add_right maxDepth 0)
  rw [htrace] at htracks
  have hfound : s.state.fragments.find? name = latest? name before :=
    (htracks.front.find?_eq name).trans Option.or_none
  have hanswer : answer = invoke below name s.state := callHelper_invoke hname
  refine ⟨node_tag htag hfind, fun body line hlatest => ?_, fun hlatest => ?_⟩
  · rw [hanswer, node_ifTrue hhelpers, invoke, hfound, hlatest]
  · rw [hanswer, invoke, hfound, hlatest]

/-- A fragment that stores another one of its name when it is rendered in the first turn of a
loop, and the second turn. -/
theorem invoke_latest_again :
    let path (name : String) : Path := ⟨name, false, 0, [name], none⟩
    let call (name arg : String) : Call := ⟨name, path name, [.path (path arg)], [], 1⟩
    let define (body : List Node) : Node := .block (call "define" "f") [⟨none, body⟩]
    let x : Node := .output ⟨"x", path "x", [], [], 1⟩ true
    let t : Template := ⟨[define [x, define [.text "again", x]],
      .block (call "each" "xs") [⟨none, [.output (call "invoke" "f") true]⟩]]⟩
    let env : RenderEnv := ⟨Registry.builtin, .verbatim, id⟩
    let data : Value := .map [("xs", .list [.map [("x", .int 1)], .map [("x", .int 2)]])]
    let below := nested env maxDepth
    ∃ before s after tag body,
      templateTrace env t ⟨Scope.ofRoot data false, [], 0, .none⟩ = before ++ s :: after ∧
      before.length = 5 ∧ s.node.tag? = some tag ∧ tag.1.name = "invoke" ∧
      tag.1.fragmentName? = some "f" ∧ latest? "f" before = some body ∧
      callHelper below Helper.invoke tag.1 tag.2 s.state =
        node env below (.ifTrue 1 body) s.state ∧
      (node env below s.node s.state).1.toOption = some "again2" := by
  intro path call define x t env data below
  let steps := templateTrace env t ⟨Scope.ofRoot data false, [], 0, .none⟩
  have hsteps : templateTrace env t ⟨Scope.ofRoot data false, [], 0, .none⟩ = steps := rfl
  have hopened : (steps[5]?.bind (·.node.tag?)).map (·.1.name) = some "invoke" := by
    decide +kernel
  have hnamed : (steps[5]?.bind (·.node.tag?)).bind (·.1.fragmentName?) = some "f" := by
    decide +kernel
  have hstored : (latest? "f" (steps.take 5)).isSome := by decide +kernel
  have htext : (steps[5]?.map fun s => (node env below s.node s.state).1.toOption) =
      some (some "again2") := by decide +kernel
  -- The steps are not evaluated from here on.
  clear_value steps
  obtain ⟨tag, htag, hinvoke⟩ := Option.map_eq_some_iff.1 hopened
  obtain ⟨s, hs, htag⟩ := Option.bind_eq_some_iff.1 htag
  rw [hs, Option.bind_some, htag, Option.bind_some] at hnamed
  rw [hs] at htext
  obtain ⟨hlength, rfl⟩ := List.getElem?_eq_some_iff.1 hs
  obtain ⟨body, hlatest⟩ := Option.isSome_iff_exists.1 hstored
  have hsplit : templateTrace env t ⟨Scope.ofRoot data false, [], 0, .none⟩ =
      steps.take 5 ++ steps[5] :: steps.drop 6 := by
    rw [hsteps, List.getElem_cons_drop, List.take_append_drop]
  have hhelpers : env.helpers = Registry.builtin := rfl
  obtain ⟨-, hlast, -⟩ := invoke_latest hhelpers hsplit htag hinvoke hnamed
  exact ⟨_, _, _, tag, body, hsplit, List.length_take_of_le hlength.le, htag, hinvoke, hnamed,
    hlatest, hlast body 1 hlatest, Option.some.inj htext⟩

end Render

end Stencil
