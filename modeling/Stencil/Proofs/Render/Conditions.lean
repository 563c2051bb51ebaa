import Stencil.Proofs.Render.Outward
import Stencil.Proofs.Render.Termination

/-!
# Blocks with conditions

A block `if` with further conditions means the same as blocks `if` inside of each other, each in the
`else` branch of the one before, as long as these do not reach the limit: they need one level more
for each condition. A block `unless` is a block `if` with its two branches exchanged.

## Main definitions

* `Guard` - the head of a tag with a condition as its first argument
* `Node.ifElse` - a block with conditions one after another
* `Node.nestedIf` - blocks with one condition each, inside of each other

Main statement: `Render.node_conditions`.
-/

namespace Stencil

/-- The head of a tag with the given name that has a condition as its first argument. Further
arguments may follow. -/
structure Guard (name : String) where
  call : Call
  condition : Param
  name_eq : call.name = name
  params_eq : call.params.head? = some condition

/-- The helper of such a tag finds the value of the condition as its first argument. -/
theorem Guard.argument_eq {name : String} (guard : Guard name) (isBlock : Bool) (scope : Scope) :
    Helper.argument (guard.call.invocation isBlock scope) 0 =
      .done (.ok (scope.resolveParam guard.condition)) := by
  obtain ⟨⟨name, path, params, hash, line⟩, condition, rfl, hparams⟩ := guard
  obtain ⟨rest, rfl⟩ := List.head?_eq_some_iff.1 hparams
  rfl

/-- The branch for what is left if no condition holds, if there is one. -/
def lastBranch (last? : Option (List Node)) : List (Branch Node) :=
  last?.toList.map (⟨none, ·⟩)

/-- The branches behind the first one: those with a condition, and the last one without. -/
def laterBranches (later : List (Guard "if" × List Node)) (last? : Option (List Node)) :
    List (Branch Node) :=
  later.map (fun branch => ⟨some branch.1.condition, branch.2⟩) ++ lastBranch last?

/-- The block `if` with conditions one after another, each with its body, and with the body for the
case that none of them holds, if there is one. -/
def Node.ifElse (first : Guard "if" × List Node) (later : List (Guard "if" × List Node))
    (last? : Option (List Node)) : Node :=
  .block first.1.call (⟨none, first.2⟩ :: laterBranches later last?)

/-- The same conditions in blocks of their own, each of which is all that there is in the `else`
branch of the one before. -/
def Node.nestedIf (first : Guard "if" × List Node) :
    (later : List (Guard "if" × List Node)) → (last? : Option (List Node)) → Node
  | [], last? => .block first.1.call (⟨none, first.2⟩ :: lastBranch last?)
  | next :: later, last? =>
    .block first.1.call [⟨none, first.2⟩, ⟨none, [nestedIf next later last?]⟩]

namespace Render

variable {env : RenderEnv} {below : Nested} {st : RenderState}

/-! ### One condition -/

/-- With a condition in front, a helper that asks for its first argument gets the value of the
condition. -/
theorem node_guard {name : String} (guard : Guard name) {next : Invocation → Value → Program String}
    (hfind : env.helpers.find? name = some ⟨fun call => Helper.argument call 0 >>= next call⟩)
    (branches : List (Branch Node)) :
    node env below (.block guard.call branches) st =
      run (answer below branches)
        (next (guard.call.invocation (!branches.isEmpty) st.scope)
          (st.scope.resolveParam guard.condition)) st := by
  simp only [node, block, guard.name_eq, hfind]
  show run _ (Helper.argument (guard.call.invocation (!branches.isEmpty) st.scope) 0 >>= _) st = _
  rw [guard.argument_eq]
  rfl

/-- A block `if` renders its main body, or looks for another branch. -/
theorem node_if (hhelpers : env.helpers = Registry.builtin) (guard : Guard "if")
    (body : List Node) (branches : List (Branch Node)) :
    node env below (.block guard.call (⟨none, body⟩ :: branches)) st =
      if (st.scope.resolveParam guard.condition).isTruthy then below body st
      else inverse below branches st := by
  have hfind : env.helpers.find? "if" = some Helper.ifTrue := by rw [hhelpers]; rfl
  refine (node_guard guard hfind _).trans ?_
  split
  · rfl
  · rfl

/-- A block `unless` does so the other way round. -/
theorem node_unless (hhelpers : env.helpers = Registry.builtin) (guard : Guard "unless")
    (body : List Node) (branches : List (Branch Node)) :
    node env below (.block guard.call (⟨none, body⟩ :: branches)) st =
      if (st.scope.resolveParam guard.condition).isTruthy then inverse below branches st
      else below body st := by
  have hfind : env.helpers.find? "unless" = some Helper.unlessTrue := by rw [hhelpers]; rfl
  refine (node_guard guard hfind _).trans ?_
  split
  · rfl
  · rfl

/-- The branches behind the first condition are a block `if` of the next one. -/
theorem inverse_laterBranches (hhelpers : env.helpers = Registry.builtin)
    (next : Guard "if" × List Node) (later : List (Guard "if" × List Node))
    (last? : Option (List Node)) :
    inverse below (laterBranches (next :: later) last?) st =
      node env below (.ifElse next later last?) st := by
  rw [Node.ifElse, node_if hhelpers]
  show (if (st.scope.resolveParam next.1.condition).isTruthy then below next.2
    else inverse below (laterBranches later last?)) st = _
  split
  · rfl
  · rfl

theorem nodes_singleton (n : Node) : nodes env below [n] = node env below n := by
  funext st
  show Render.bind (node env below n) (fun front => Render.bind (pure "") fun back =>
    (pure (front ++ back) : Render String)) st = node env below n st
  unfold Render.bind
  cases node env below n st with
  | mk result st' =>
    cases result with
    | error e => rfl
    | ok text => exact congrArg (fun text => (Except.ok text, st')) String.append_empty

/-! ### Conditions one after another -/

/-- What a single node gives one level deeper it gives in place, unless the limit is reached. -/
theorem node_eq_of_nested (hhelpers : env.helpers = Registry.builtin) {n : Node}
    (h : (nested env maxDepth [n] st).1 ≠ .error .tooDeep) :
    node env (nested env maxDepth) n st = nested env maxDepth [n] st := by
  rw [recurs_nested env [n], nodes_singleton] at h ⊢
  by_cases hfull : maxDepth ≤ st.depth
  · exact absurd (by rw [deeper, if_pos hfull]; rfl) h
  · rw [deeper, if_neg hfull] at h ⊢
    have hlifts : Lifts (node env (nested env maxDepth) n) :=
      .node hhelpers (.nested env maxDepth) (.nested hhelpers maxDepth) n
    have hdepth : (node env (nested env maxDepth) n { st with depth := st.depth + 1 }).2.depth =
        st.depth + 1 := (Balanced.node (.nested env maxDepth) n _).2
    have hout := hlifts { st with depth := st.depth + 1 } st.depth (Nat.le_succ st.depth) h
    refine hout.trans (Prod.ext rfl ?_)
    show RenderState.onLevel _ st.depth = RenderState.onLevel _ (_ - 1)
    rw [hdepth, Nat.add_sub_cancel]

/-- Conditions one after another give what blocks inside of each other give, unless these reach the
limit, by induction on the conditions. -/
theorem node_ifElse (hhelpers : env.helpers = Registry.builtin) (first : Guard "if" × List Node)
    (later : List (Guard "if" × List Node)) (last? : Option (List Node))
    (h : (node env (nested env maxDepth) (.nestedIf first later last?) st).1 ≠ .error .tooDeep) :
    node env (nested env maxDepth) (.ifElse first later last?) st =
      node env (nested env maxDepth) (.nestedIf first later last?) st := by
  induction later generalizing first with
  | nil => rfl
  | cons next later ih =>
    rw [Node.nestedIf, node_if hhelpers] at h ⊢
    rw [Node.ifElse, node_if hhelpers]
    split
    · rfl
    · next hfalse =>
      rw [if_neg hfalse] at h
      rw [inverse_laterBranches hhelpers]
      -- The last branch is taken, and has nothing in it but the other blocks.
      have helse : inverse (nested env maxDepth) [⟨none, [Node.nestedIf next later last?]⟩] st =
          nested env maxDepth [.nestedIf next later last?] st := rfl
      rw [helse] at h ⊢
      have hnext := node_eq_of_nested hhelpers h
      rw [← hnext]
      exact ih next (by rwa [hnext])

/-- **Blocks with conditions.** With the built-in helpers and in every state of a render:

* a block `if` with further conditions gives the text or the error of blocks `if` inside of each
  other, and leaves the same fragments, unless these blocks reach the limit;
* a block `unless` gives what a block `if` with the same condition gives whose branches are
  exchanged, and leaves the same fragments. -/
theorem node_conditions (hhelpers : env.helpers = Registry.builtin) (st : RenderState) :
    (∀ first later last?,
      (node env (nested env maxDepth) (.nestedIf first later last?) st).1 ≠
          .error (.render (.nesting maxDepth)) →
        node env (nested env maxDepth) (.ifElse first later last?) st =
          node env (nested env maxDepth) (.nestedIf first later last?) st) ∧
    ∀ (unlessTag : Guard "unless") (ifTag : Guard "if") (body other : List Node),
      unlessTag.condition = ifTag.condition →
        node env (nested env maxDepth) (.block unlessTag.call [⟨none, body⟩, ⟨none, other⟩]) st =
          node env (nested env maxDepth) (.block ifTag.call [⟨none, other⟩, ⟨none, body⟩]) st := by
  refine ⟨fun first later last? => node_ifElse hhelpers first later last?, ?_⟩
  intro unlessTag ifTag body other hcondition
  rw [node_unless hhelpers, node_if hhelpers, hcondition]
  split
  · rfl
  · rfl

/-- A second condition that holds, on the last level but two, and a fragment in its body. -/
theorem node_conditions_elseif :
    let path (name : String) : Path := ⟨name, false, 0, [name], none⟩
    let call (name arg : String) : Call := ⟨name, path name, [.path (path arg)], [], 1⟩
    let ifTag (arg : String) : Guard "if" := ⟨call "if" arg, .path (path arg), rfl, rfl⟩
    let unlessTag (arg : String) : Guard "unless" := ⟨call "unless" arg, .path (path arg), rfl, rfl⟩
    let env : RenderEnv := ⟨Registry.builtin, .verbatim, id⟩
    let st : RenderState :=
      ⟨⟨[⟨.map [("b", .int 1)], none⟩], .map [("a", .bool false), ("b", .null)], false⟩, [], 62,
        .none⟩
    let first := (ifTag "a", [Node.text "x"])
    let define : Node := .block (call "define" "f") [⟨none, []⟩]
    let later := [(ifTag "b", [define, .output (call "upper" "b") true])]
    let below := nested env maxDepth
    (node env below (.nestedIf first later (some [])) st).1.toOption = some "1" ∧
      (node env below (.nestedIf first later (some [])) st).1 ≠
        .error (.render (.nesting maxDepth)) ∧
      node env below (.ifElse first later (some [])) st =
        node env below (.nestedIf first later (some [])) st ∧
      node env below (.block (unlessTag "b").call [⟨none, [.text "x"]⟩, ⟨none, [.text "y"]⟩]) st =
        node env below (.block (ifTag "b").call [⟨none, [.text "y"]⟩, ⟨none, [.text "x"]⟩]) st := by
  intro path call ifTag unlessTag env st first define later below
  have htext : (node env below (.nestedIf first later (some [])) st).1.toOption = some "1" := by
    decide +kernel
  have hroom : (node env below (.nestedIf first later (some [])) st).1 ≠
      .error (.render (.nesting maxDepth)) := by
    intro h
    rw [h] at htext
    cases htext
  have hhelpers : env.helpers = Registry.builtin := rfl
  obtain ⟨hif, hunless⟩ := node_conditions hhelpers st
  exact ⟨htext, hroom, hif first later (some []) hroom, hunless _ _ _ _ rfl⟩

end Render

end Stencil
