import Stencil.Proofs.Render.Levels

/-!
# Two renders side by side

A render may be followed by a second one in another environment and with another cache. Here it is
shown once what makes the second one go the same way: then its texts and its caches are those of the
first one, changed by a function.

## Main definitions

* `Render.Lookup`, `Render.lookups` - the texts whose trees are asked for during a render
* `Program.Alike` - two courses of action that go the same way
* `Render.Simulation` - what ties two environments to each other
* `Render.Simulation.Sees` - what it means that a step goes the same way

## Design notes

The first render is the one that is looked at, so it is its lookups that have to be admitted, and
its states that keep the invariant. The second state is a function of the first one: only the
cache differs.
-/

namespace Stencil

/-! ### Lookups -/

namespace Render

/-- A text whose tree is asked for, and the cache that is asked first. -/
structure Lookup where
  source : String
  cache : Cache

/-- The tree that comes of a lookup, if any. -/
def Lookup.tree? (l : Lookup) : Option Template :=
  (l.cache.compile l.source).1.toOption

/-- The text whose tree a node asks for: that of a partial. -/
def nodeLookup? (env : RenderEnv) (st : RenderState) : Node → Option Lookup
  | .partialTag name _ _ =>
    match env.partials.load name with
    | .error _ => none
    | .ok source => some ⟨source.source, st.cache⟩
  | _ => none

/-- The texts whose trees nodes ask for, one node after another up to the first one that fails;
what is rendered one level deeper does not count. -/
def nodesLookups (env : RenderEnv) (below : Nested) : List Node → RenderState → List Lookup
  | [], _ => []
  | first :: rest, st =>
    (nodeLookup? env st first).toList ++
      match node env below first st with
      | (.ok _, st) => nodesLookups env below rest st
      | (.error _, _) => []

/-- The texts whose trees are asked for while the given nodes are rendered, on any level. -/
def lookups (env : RenderEnv) (levels : Nat) (body : List Node) (st : RenderState) : List Lookup :=
  (visits env levels body st).flatMap fun v =>
    nodesLookups env (nested env v.levels) v.body v.state

variable {env : RenderEnv} {levels : Nat} {body : List Node} {st : RenderState} {l : Lookup}

theorem mem_lookups_of_mem_nodesLookups (h : l ∈ nodesLookups env (nested env levels) body st) :
    l ∈ lookups env levels body st :=
  List.mem_flatMap.2 ⟨_, self_mem_visits levels body st, h⟩

/-- What a descent looks up is among what the nodes above look up. -/
theorem mem_lookups_of_mem_descent {d : Descent}
    (hd : d ∈ nodesDescents env (nested env (levels + 1)) body st)
    (hdepth : d.state.depth < maxDepth)
    (h : l ∈ lookups env levels d.body { d.state with depth := d.state.depth + 1 }) :
    l ∈ lookups env (levels + 1) body st := by
  obtain ⟨v, hv, hl⟩ := List.mem_flatMap.1 h
  exact List.mem_flatMap.2 ⟨v, mem_visits_of_mem_descent hd hdepth hv, hl⟩

end Render

/-! ### Courses of action -/

namespace Program

variable {f g : String → String} {isBlock : Bool}

/-- What can be answered to a request: a tag without a body only gets empty texts, unless it asks
for a fragment. -/
def MayAnswer (isBlock : Bool) (request : Request) (answer : Except Error String) : Prop :=
  isBlock = false → (∀ name, request ≠ .invoke name) → ∀ text, answer = .ok text → text = ""

/-- Two courses of action that go the same way: they ask for the same, and go on alike when the
second one gets the answers of the first one changed by `f`. The result of the second one is that
of the first one changed by `g`. -/
inductive Alike (f g : String → String) (isBlock : Bool) :
    Program String → Program String → Prop where
  | done (result : Except Error String) : Alike f g isBlock (.done result) (.done (result.map g))
  | ask {request : Request} {next next' : Except Error String → Program String}
      (h : ∀ answer, MayAnswer isBlock request answer →
        Alike f g isBlock (next answer) (next' (answer.map f))) :
      Alike f g isBlock (.ask request next) (.ask request next')

theorem Alike.refl (program : Program String) : Alike id id isBlock program program := by
  induction program with
  | done result =>
    have hdone : Alike id id isBlock (.done result) (.done (result.map id)) := .done result
    rwa [Except.map_id, id_eq] at hdone
  | ask request next ih => exact .ask fun answer _ => by simpa using ih answer

/-- What goes the same way for all answers does so for those to a tag without a body. -/
theorem Alike.of_block {program program' : Program String} (h : Alike f g true program program')
    (isBlock : Bool) : Alike f g isBlock program program' := by
  induction h with
  | done result => exact .done result
  | ask _ ih => exact .ask fun answer _ => ih answer fun hblock => nomatch hblock

end Program

namespace Render

/-! ### Simulations -/

/-- What ties two environments to each other, so that renders in them go the same way: the
function `text` that gives the second text from the first one, the function `cache` that does so
for caches, an invariant of the first cache, the nodes that may be rendered, and the lookups that
are admitted. -/
structure Simulation (env env' : RenderEnv) where
  text : String → String
  cache : Cache → Cache
  Valid : Cache → Prop
  Allows : Node → Prop
  Admits : Lookup → Prop
  helpers : env'.helpers = env.helpers
  partials : env'.partials = env.partials
  text_empty : text "" = ""
  text_append : ∀ front back, text (front ++ back) = text front ++ text back
  escape : ∀ plain, env'.escape plain = text (env.escape plain)
  verbatim : ∀ body, Allows (.text body) ∨ Allows (.raw body) → text body = body
  unescaped : ∀ call, Allows (.output call false) → ∀ plain, text plain = plain
  output : ∀ call escaped helper, Allows (.output call escaped) →
    env.helpers.find? call.name = some helper →
    ∀ invocation, Program.Alike text id false (helper.run invocation) (helper.run invocation)
  inline : ∀ call helper, Allows (.inline call) → env.helpers.find? call.name = some helper →
    ∀ invocation, Program.Alike text text false (helper.run invocation) (helper.run invocation)
  block : ∀ call branches helper, Allows (.block call branches) →
    env.helpers.find? call.name = some helper →
    ∀ invocation, Program.Alike text text true (helper.run invocation) (helper.run invocation)
  variableBlock : ∀ invocation value, Program.Alike text text true
    (Helper.variableBlock invocation value) (Helper.variableBlock invocation value)
  bodies : ∀ call branches, Allows (.block call branches) →
    ∀ branch ∈ branches, ∀ n ∈ branch.body, Allows n
  compile : ∀ l : Lookup, Admits l → Valid l.cache →
    (cache l.cache).compile l.source =
        ((l.cache.compile l.source).1, cache (l.cache.compile l.source).2) ∧
      Valid (l.cache.compile l.source).2 ∧
      ∀ t, (l.cache.compile l.source).1 = .ok t → ∀ n ∈ t.nodes, Allows n

namespace Simulation

variable {α β : Type} {env env' : RenderEnv} (s : Simulation env env') {below below' : Nested}
  {st : RenderState}

/-- The state of the second render. -/
def state (st : RenderState) : RenderState :=
  { st with cache := s.cache st.cache }

/-- Whether nodes may be rendered. -/
def AllowsAll (body : List Node) : Prop :=
  ∀ n ∈ body, s.Allows n

/-- What holds of the states of the first render. -/
structure Keeps (st : RenderState) : Prop where
  cache : s.Valid st.cache
  fragments : ∀ name body, st.fragments.find? name = some body → s.AllowsAll body

/-- A step and one of the second render that goes the same way from a state: its result is that of
the first one changed by `g`, and so is its state. -/
def Sees (g : α → α) (x x' : Render α) (st : RenderState) : Prop :=
  x' (s.state st) = ((x st).1.map g, s.state (x st).2) ∧ s.Keeps (x st).2

variable {s}

theorem Keeps.enter (h : s.Keeps st) (frame : Option Frame) : s.Keeps (st.enter frame) := by
  cases frame with
  | none => exact h
  | some frame => exact ⟨h.cache, h.fragments⟩

namespace Sees

theorem ofResult {g : α → α} {result : Except Error α} (hst : s.Keeps st) :
    s.Sees g (Render.ofResult result) (Render.ofResult (result.map g)) st :=
  ⟨rfl, hst⟩

theorem pure {g : α → α} {a : α} (hst : s.Keeps st) :
    s.Sees g (Pure.pure a : Render α) (Pure.pure (g a)) st :=
  ⟨rfl, hst⟩

theorem empty (hst : s.Keeps st) :
    s.Sees s.text (Pure.pure "" : Render String) (Pure.pure "") st := by
  have hpure := Sees.pure (g := s.text) (a := "") hst
  rwa [s.text_empty] at hpure

/-- Only what the steps give from the two states counts. -/
theorem of_eq {g : α → α} {x x' : Render α} (y y' : Render α) (hx : x st = y st)
    (hx' : x' (s.state st) = y' (s.state st)) (h : s.Sees g y y' st) : s.Sees g x x' st := by
  unfold Sees
  rw [hx, hx']
  exact h

theorem readScope {f : Scope → α} (hst : s.Keeps st) :
    s.Sees id (Render.readScope f) (Render.readScope f) st :=
  ⟨rfl, hst⟩

theorem bind {g : α → α} {h : β → β} {x x' : Render α} {f f' : α → Render β}
    (hx : s.Sees g x x' st)
    (hf : ∀ a st', x st = (.ok a, st') → s.Keeps st' → s.Sees h (f a) (f' (g a)) st') :
    s.Sees h (x >>= f) (x' >>= f') st := by
  show Render.bind x' f' (s.state st) =
    ((Render.bind x f st).1.map h, s.state (Render.bind x f st).2) ∧ s.Keeps (Render.bind x f st).2
  obtain ⟨hstep, hkeeps⟩ := hx
  unfold Render.bind
  rw [hstep]
  cases hresult : x st with
  | mk result st' =>
    rw [hresult] at hkeeps
    cases result with
    | ok a => exact hf a st' hresult hkeeps
    | error e => exact ⟨rfl, hkeeps⟩

theorem within {g : α → α} {x x' : Render α} {frame : Option Frame}
    (h : s.Sees g x x' (st.enter frame)) :
    s.Sees g (Render.within frame x) (Render.within frame x') st := by
  cases frame with
  | none => exact h
  | some frame =>
    obtain ⟨hstep, hkeeps⟩ := h
    refine ⟨?_, hkeeps.cache, hkeeps.fragments⟩
    simp only [Render.within, state, RenderState.enter] at hstep ⊢
    rw [hstep]

theorem deeper {g : α → α} {x x' : Render α} (hst : s.Keeps st)
    (h : st.depth < maxDepth → s.Sees g x x' { st with depth := st.depth + 1 }) :
    s.Sees g (Render.deeper x) (Render.deeper x') st := by
  unfold Sees Render.deeper
  by_cases hlimit : maxDepth ≤ st.depth
  · rw [if_pos hlimit, if_pos (show maxDepth ≤ (s.state st).depth from hlimit)]
    exact ⟨rfl, hst⟩
  · rw [if_neg hlimit, if_neg (show ¬ maxDepth ≤ (s.state st).depth from hlimit)]
    obtain ⟨hstep, hkeeps⟩ := h (Nat.lt_of_not_le hlimit)
    refine ⟨?_, hkeeps.cache, hkeeps.fragments⟩
    simp only [state] at hstep ⊢
    rw [hstep]

theorem compile {source : String} (hst : s.Keeps st) (hadmits : s.Admits ⟨source, st.cache⟩) :
    s.Sees id (Render.compile source) (Render.compile source) st := by
  obtain ⟨hsame, hvalid, -⟩ := s.compile ⟨source, st.cache⟩ hadmits hst.cache
  refine ⟨?_, hvalid, hst.fragments⟩
  simp only [Render.compile, state, hsame, Except.map_id, id_eq]

theorem allowsAll_of_compile {source : String} {t : Template} {st' : RenderState}
    (hst : s.Keeps st) (hadmits : s.Admits ⟨source, st.cache⟩)
    (h : Render.compile source st = (.ok t, st')) : s.AllowsAll t.nodes := by
  obtain ⟨-, -, hallows⟩ := s.compile ⟨source, st.cache⟩ hadmits hst.cache
  exact hallows t (congrArg Prod.fst h)

end Sees

/-- The second way to render nodes one level deeper goes the way of the first one on all descents
of a list. -/
def SeesAll (s : Simulation env env') (below below' : Nested) (descents : List Descent) : Prop :=
  ∀ d ∈ descents, s.Keeps d.state → s.AllowsAll d.body →
    s.Sees s.text (below d.body) (below' d.body) d.state

theorem SeesAll.of_append {descents later : List Descent}
    (h : s.SeesAll below below' (descents ++ later)) :
    s.SeesAll below below' descents ∧ s.SeesAll below below' later :=
  ⟨fun d hd => h d (List.mem_append_left _ hd), fun d hd => h d (List.mem_append_right _ hd)⟩

theorem allowsAll_mainBody {branches : List (Branch Node)}
    (h : ∀ branch ∈ branches, s.AllowsAll branch.body) : s.AllowsAll (mainBody branches) := by
  cases branches with
  | nil => exact fun n hn => absurd hn List.not_mem_nil
  | cons branch branches => exact h branch (.head _)

theorem Keeps.insert (hst : s.Keeps st) (name : String) {body : List Node}
    (hbody : s.AllowsAll body) :
    s.Keeps { st with fragments := st.fragments.insert name body } := by
  refine ⟨hst.cache, fun other stored hstored => ?_⟩
  by_cases hname : other = name
  · subst hname
    obtain rfl : body = stored := by simpa using hstored
    exact hbody
  · exact hst.fragments other stored (by simpa [Entries.find?_insert_of_ne hname] using hstored)

namespace Sees

theorem answer {branches : List (Branch Node)} {request : Request} (hst : s.Keeps st)
    (hbranches : ∀ branch ∈ branches, s.AllowsAll branch.body)
    (hbelow : s.SeesAll below below' (requestDescent? branches st request).toList) :
    s.Sees s.text (Render.answer below branches request) (Render.answer below' branches request)
      st := by
  cases request with
  | body frame =>
    exact .within (hbelow ⟨mainBody branches, st.enter frame⟩ (.head _) (hst.enter frame)
      (allowsAll_mainBody hbranches))
  | inverse frame =>
    refine .within ?_
    cases hchosen : chosen? (st.enter frame).scope branches.tail with
    | none =>
      exact .of_eq _ _ (inverse_of_chosen?_eq_none hchosen) (inverse_of_chosen?_eq_none hchosen)
        (.empty (hst.enter frame))
    | some branch =>
      have hmem : branch ∈ branches := List.mem_of_mem_tail (List.mem_of_find?_eq_some hchosen)
      refine .of_eq _ _ (inverse_of_chosen?_eq_some hchosen) (inverse_of_chosen?_eq_some hchosen)
        (hbelow ⟨branch.body, st.enter frame⟩ ?_ (hst.enter frame) (hbranches branch hmem))
      simp [requestDescent?, hchosen]
  | define name =>
    refine ⟨?_, hst.insert name (allowsAll_mainBody hbranches)⟩
    simp [Render.answer, Render.define, Except.map, s.text_empty, state]
  | invoke name =>
    show s.Sees s.text (Render.invoke below name) (Render.invoke below' name) st
    cases hfragment : st.fragments.find? name with
    | none =>
      exact .of_eq _ _ (by simp [Render.invoke, hfragment]; rfl)
        (by simp [Render.invoke, state, hfragment]; rfl) (.empty hst)
    | some body =>
      refine .of_eq (below body) (below' body) (by simp [Render.invoke, hfragment])
        (by simp [Render.invoke, state, hfragment])
        (hbelow ⟨body, st⟩ ?_ hst (hst.fragments name body hfragment))
      simp [requestDescent?, hfragment]

/-- A helper whose tag has no body gets no text but those of fragments. -/
theorem mayAnswer_answer {branches : List (Branch Node)} {isBlock : Bool}
    (hbare : isBlock = false → branches = [])
    (hempty : ∀ st text, (below [] st).1 = .ok text → text = "") (request : Request)
    (st : RenderState) :
    Program.MayAnswer isBlock request (Render.answer below branches request st).1 := by
  intro hblock hinvoke text htext
  obtain rfl := hbare hblock
  cases request with
  | body frame =>
    cases frame with
    | none => exact hempty st text htext
    | some frame => exact hempty { st with scope := st.scope.push frame } text htext
  | inverse frame =>
    cases frame with
    | none => exact (Except.ok.inj htext).symm
    | some frame => exact (Except.ok.inj htext).symm
  | define name => exact (Except.ok.inj htext).symm
  | invoke name => exact absurd rfl (hinvoke name)

theorem run {g : String → String} {branches : List (Branch Node)} {isBlock : Bool}
    {program program' : Program String} (halike : Program.Alike s.text g isBlock program program')
    (hbare : isBlock = false → branches = [])
    (hempty : ∀ st text, (below [] st).1 = .ok text → text = "") (hst : s.Keeps st)
    (hbranches : ∀ branch ∈ branches, s.AllowsAll branch.body)
    (hbelow : s.SeesAll below below' (programDescents below branches program st)) :
    s.Sees g (Render.run (Render.answer below branches) program)
      (Render.run (Render.answer below' branches) program') st := by
  induction halike generalizing st with
  | done result => exact .ofResult hst
  | ask halike ih =>
    rename_i request next next'
    obtain ⟨hrequest, hnext⟩ := hbelow.of_append
    obtain ⟨hstep, hkeeps⟩ := Sees.answer hst hbranches hrequest
    -- The second helper gets the answer of the first one, and goes on in the state of the first.
    obtain ⟨hrest, hkeeps⟩ := ih (Render.answer below branches request st).1
      (mayAnswer_answer hbare hempty request st) hkeeps hnext
    refine ⟨?_, hkeeps⟩
    simp only [Render.run]
    rw [hstep]
    exact hrest

theorem callHelper {g : String → String} {helper : Helper} {call : Call}
    {branches : List (Branch Node)}
    (halike : Program.Alike s.text g (!branches.isEmpty)
      (helper.run (call.invocation (!branches.isEmpty) st.scope))
      (helper.run (call.invocation (!branches.isEmpty) st.scope)))
    (hempty : ∀ st text, (below [] st).1 = .ok text → text = "") (hst : s.Keeps st)
    (hbranches : ∀ branch ∈ branches, s.AllowsAll branch.body)
    (hbelow : s.SeesAll below below' (programDescents below branches
      (helper.run (call.invocation (!branches.isEmpty) st.scope)) st)) :
    s.Sees g (Render.callHelper below helper call branches)
      (Render.callHelper below' helper call branches) st := by
  refine .of_eq (Render.run _ _) (Render.run _ _) rfl rfl
    (.run halike ?_ hempty hst hbranches hbelow)
  simp

theorem output {call : Call} {escaped : Bool} (hallows : s.Allows (.output call escaped))
    (hempty : ∀ st text, (below [] st).1 = .ok text → text = "") (hst : s.Keeps st)
    (hbelow : s.SeesAll below below' (nodeDescents env below st (.output call escaped))) :
    s.Sees s.text (Render.output env below call escaped) (Render.output env' below' call escaped)
      st := by
  have hwrite (plain : String) : write env' escaped plain = s.text (write env escaped plain) := by
    cases escaped with
    | true => exact s.escape plain
    | false => exact (s.unescaped call hallows plain).symm
  unfold Render.output
  rw [s.helpers]
  cases hhelper : env.helpers.find? call.name with
  | some helper =>
    simp only [nodeDescents, helperProgram?, hhelper] at hbelow
    -- The result of the helper is not changed yet; it is escaped on both sides.
    refine .bind (g := id) (.callHelper (s.output call escaped helper hallows hhelper _) hempty hst
      (by simp) hbelow) fun plain st' _ hst' => ?_
    rw [id_eq, hwrite]
    exact .pure hst'
  | none =>
    dsimp only
    by_cases harguments : call.hasArguments = true
    · rw [if_pos harguments, if_pos harguments]
      exact .ofResult hst
    · rw [if_neg harguments, if_neg harguments]
      refine .bind (g := id) (.readScope hst) fun value st' _ hst' => ?_
      cases value with
      | none => exact .empty hst'
      | some value =>
        simp only [id_eq, hwrite]
        exact .pure hst'

theorem inline {call : Call} (hallows : s.Allows (.inline call))
    (hempty : ∀ st text, (below [] st).1 = .ok text → text = "") (hst : s.Keeps st)
    (hbelow : s.SeesAll below below' (nodeDescents env below st (.inline call))) :
    s.Sees s.text (Render.inline env below call) (Render.inline env' below' call) st := by
  unfold Render.inline
  rw [s.helpers]
  cases hhelper : env.helpers.find? call.name with
  | some helper =>
    simp only [nodeDescents, helperProgram?, hhelper] at hbelow
    exact .callHelper (s.inline call helper hallows hhelper _) hempty hst (by simp) hbelow
  | none =>
    refine .bind (g := id) (.readScope hst) fun value st' _ hst' => ?_
    cases value with
    | none => exact .ofResult hst'
    | some value =>
      dsimp only [id_eq]
      by_cases harguments : call.hasArguments = true
      · rw [if_pos harguments, if_pos harguments]
        exact .ofResult hst'
      · rw [if_neg harguments, if_neg harguments]
        simp only [write, if_true, s.escape]
        exact .pure hst'

theorem block {call : Call} {branches : List (Branch Node)}
    (hallows : s.Allows (.block call branches))
    (hempty : ∀ st text, (below [] st).1 = .ok text → text = "") (hst : s.Keeps st)
    (hbelow : s.SeesAll below below' (nodeDescents env below st (.block call branches))) :
    s.Sees s.text (Render.block env below call branches) (Render.block env' below' call branches)
      st := by
  have hbranches : ∀ branch ∈ branches, s.AllowsAll branch.body := s.bodies call branches hallows
  unfold Render.block
  rw [s.helpers]
  cases hhelper : env.helpers.find? call.name with
  | some helper =>
    simp only [nodeDescents, blockProgram?, helperProgram?, hhelper] at hbelow
    exact .callHelper ((s.block call branches helper hallows hhelper _).of_block _) hempty hst
      hbranches hbelow
  | none =>
    simp only [nodeDescents, blockProgram?, helperProgram?, variableProgram?, hhelper] at hbelow
    refine .bind (g := id) (.readScope hst) fun value st' hvalue hst' => ?_
    -- Looking up the variable leaves the state as it is, so the helper starts where the block does.
    obtain ⟨rfl, rfl⟩ : st.scope.resolveSliced? call.path = value ∧ st = st' := by
      simpa [Render.readScope] using hvalue
    cases hvalue : st.scope.resolveSliced? call.path with
    | none => exact .ofResult hst
    | some value =>
      dsimp only [id_eq]
      by_cases harguments : call.hasArguments = true
      · rw [if_pos harguments, if_pos harguments]
        exact .ofResult hst
      · rw [if_neg harguments, if_neg harguments]
        simp only [harguments, hvalue] at hbelow
        refine .of_eq (Render.run _ _) (Render.run _ _) rfl rfl
          (.run ((s.variableBlock _ value).of_block (!branches.isEmpty)) ?_ hempty hst hbranches
            hbelow)
        simp

theorem partialTag {name : String} {context : Option Param} {line : Nat} (hst : s.Keeps st)
    (hadmits : ∀ l ∈ nodeLookup? env st (.partialTag name context line), s.Admits l)
    (hbelow : s.SeesAll below below' (nodeDescents env below st (.partialTag name context line))) :
    s.Sees s.text (Render.partialTag env below name context)
      (Render.partialTag env' below' name context) st := by
  unfold Render.partialTag
  rw [s.partials]
  refine .bind (g := id) (by simpa using Sees.ofResult (g := id) hst)
    fun source st' hsource hst' => ?_
  obtain ⟨hload, rfl⟩ : env.partials.load name = .ok source ∧ st = st' := by
    simpa [Render.ofResult] using hsource
  have hadmitted : s.Admits ⟨source.source, st.cache⟩ := hadmits _ (by simp [nodeLookup?, hload])
  refine .bind (g := id) (.compile hst hadmitted) fun t later htree hlater => ?_
  have hallows : s.AllowsAll t.nodes := allowsAll_of_compile hst hadmitted htree
  -- The frame is read from the state in which the body is rendered then.
  refine .of_eq (Render.within _ (below t.nodes)) (Render.within _ (below' t.nodes)) rfl rfl
    (.within (hbelow ⟨t.nodes, later.enter _⟩ ?_ (hlater.enter _) hallows))
  simp [nodeDescents, partialDescent?, hload, htree]

/-- A node goes the same way if its descents do and its lookups are admitted. -/
theorem node (n : Node) (hallows : s.Allows n)
    (hempty : ∀ st text, (below [] st).1 = .ok text → text = "") (hst : s.Keeps st)
    (hadmits : ∀ l ∈ nodeLookup? env st n, s.Admits l)
    (hbelow : s.SeesAll below below' (nodeDescents env below st n)) :
    s.Sees s.text (Render.node env below n) (Render.node env' below' n) st := by
  have hverbatim (body : String) (h : s.Allows (.text body) ∨ s.Allows (.raw body)) :
      s.Sees s.text (Pure.pure body : Render String) (Pure.pure body) st := by
    have hpure := Sees.pure (g := s.text) (a := body) hst
    rwa [s.verbatim body h] at hpure
  cases n with
  | text body => exact hverbatim body (.inl hallows)
  | raw body => exact hverbatim body (.inr hallows)
  | output call escaped => exact .output hallows hempty hst hbelow
  | inline call => exact .inline hallows hempty hst hbelow
  | block call branches => exact .block hallows hempty hst hbelow
  | partialTag name context line => exact .partialTag hst hadmits hbelow

theorem nodes (body : List Node) (hallows : s.AllowsAll body)
    (hempty : ∀ st text, (below [] st).1 = .ok text → text = "") (hst : s.Keeps st)
    (hadmits : ∀ l ∈ nodesLookups env below body st, s.Admits l)
    (hbelow : s.SeesAll below below' (nodesDescents env below body st)) :
    s.Sees s.text (Render.nodes env below body) (Render.nodes env' below' body) st := by
  induction body generalizing st with
  | nil => exact .empty hst
  | cons first rest ih =>
    obtain ⟨hfirst, hrest⟩ := hbelow.of_append
    have hadmitsFirst : ∀ l ∈ nodeLookup? env st first, s.Admits l := fun l hl =>
      hadmits l (List.mem_append_left _ (Option.mem_toList.2 hl))
    refine .bind (.node first (hallows first (.head _)) hempty hst hadmitsFirst hfirst)
      fun front st' hstep hst' => ?_
    rw [hstep] at hrest
    have hadmitsRest : ∀ l ∈ nodesLookups env below rest st', s.Admits l := by
      intro l hl
      refine hadmits l (List.mem_append_right _ ?_)
      rwa [hstep]
    have hallowsRest : s.AllowsAll rest := fun n hn => hallows n (.tail _ hn)
    refine .bind (ih hallowsRest hst' hadmitsRest hrest) fun back st'' _ hst'' => ?_
    rw [← s.text_append]
    exact .pure hst''

end Sees

theorem eq_empty_of_nested_nil (env : RenderEnv) (levels : Nat) (st : RenderState) (text : String)
    (h : (nested env levels [] st).1 = .ok text) : text = "" := by
  cases levels with
  | zero =>
    simp only [nested, deeper] at h
    split at h
    · cases h
    · cases h
  | succ levels =>
    simp only [nested, deeper] at h
    split at h
    · cases h
    · exact (Except.ok.inj h).symm

/-- A whole render goes the same way if all its lookups are admitted. The induction is on the
levels that are left: what is rendered one level deeper has one of them less. -/
theorem sees_nodes (s : Simulation env env') {levels : Nat} {body : List Node}
    (hallows : s.AllowsAll body) (hst : s.Keeps st)
    (hadmits : ∀ l ∈ lookups env levels body st, s.Admits l) :
    s.Sees s.text (nodes env (nested env levels) body) (nodes env' (nested env' levels) body)
      st := by
  induction levels generalizing body st with
  | zero =>
    refine .nodes body hallows (eq_empty_of_nested_nil env 0) hst
      (fun l hl => hadmits l (mem_lookups_of_mem_nodesLookups hl)) ?_
    intro d _ hd _
    exact .deeper hd fun _ => .ofResult ⟨hd.cache, hd.fragments⟩
  | succ levels ih =>
    refine .nodes body hallows (eq_empty_of_nested_nil env (levels + 1)) hst
      (fun l hl => hadmits l (mem_lookups_of_mem_nodesLookups hl)) ?_
    intro d hmem hd hallows'
    refine .deeper hd fun hdepth => ih hallows' ⟨hd.cache, hd.fragments⟩ fun l hl => ?_
    exact hadmits l (mem_lookups_of_mem_descent hmem hdepth hl)

end Simulation

end Render

end Stencil
