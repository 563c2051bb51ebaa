import Stencil.Proofs.Render.Conditions
import Stencil.Proofs.Render.Errors

/-!
# The nesting limit

Bodies, fragments and partials are rendered one level deeper than what asks for them. In a template
without partials and without `invoke`, and in which no tag without a body asks for one, the levels
are those of blocks inside of each other. Then the limit is reached only where more than `maxDepth`
blocks stand inside of each other, however often their bodies are rendered.

## Main definitions

* `Node.height`, `nodesHeight` - how many blocks stand inside of each other
* `Node.inside`, `nodesInside` - all nodes of a tree
* `Node.RendersBranches` - a node that renders nothing on the next level but its own branches
* `Node.ifs` - blocks `if` inside of each other

Main statement: `Render.template_nesting`.
-/

namespace Stencil

mutual

/-- How many blocks stand inside of each other in a node. -/
def Node.height : Node → Nat
  | .block _ branches => branchesHeight branches + 1
  | _ => 0

/-- How many blocks stand inside of each other in nodes. -/
def nodesHeight : List Node → Nat
  | [] => 0
  | node :: nodes => max node.height (nodesHeight nodes)

/-- How many blocks stand inside of each other in branches. -/
def branchesHeight : List (Branch Node) → Nat
  | [] => 0
  | ⟨_, body⟩ :: branches => max (nodesHeight body) (branchesHeight branches)

end

mutual

/-- A node and all nodes in it. -/
def Node.inside : Node → List Node
  | .block call branches => .block call branches :: branchesInside branches
  | node => [node]

/-- Nodes and all nodes in them. -/
def nodesInside : List Node → List Node
  | [] => []
  | node :: nodes => node.inside ++ nodesInside nodes

/-- All nodes in branches. -/
def branchesInside : List (Branch Node) → List Node
  | [] => []
  | ⟨_, body⟩ :: branches => nodesInside body ++ branchesInside branches

end

/-- A node that renders nothing on the next level but its own branches: it is no partial and renders
no fragment, and without a body it does not ask for one. -/
def Node.RendersBranches : Node → Prop
  | .output call _ => call.name ≠ "invoke" ∧ call.name ∉ Helper.branchHelpers
  | .inline call => call.name ≠ "invoke" ∧ call.name ∉ Helper.branchHelpers
  | .block call _ => call.name ≠ "invoke"
  | .partialTag _ _ _ => False
  | _ => True

instance : DecidablePred Node.RendersBranches
  | .text _ => .isTrue trivial
  | .raw _ => .isTrue trivial
  | .output _ _ => inferInstanceAs (Decidable (_ ∧ _))
  | .inline _ => inferInstanceAs (Decidable (_ ∧ _))
  | .block _ _ => inferInstanceAs (Decidable (_ ≠ _))
  | .partialTag _ _ _ => .isFalse id

/-- Blocks `if` inside of each other, each with its other branches, around a text. -/
def Node.ifs : List (Guard "if" × List (Branch Node)) → String → List Node
  | [], inner => [.text inner]
  | (guard, later) :: tags, inner => [.block guard.call (⟨none, ifs tags inner⟩ :: later)]

theorem Node.self_mem_inside (n : Node) : n ∈ n.inside := by
  cases n <;> exact .head _

/-! ### Branches -/

theorem nodesHeight_le_of_mem {branches : List (Branch Node)} {branch : Branch Node}
    (h : branch ∈ branches) : nodesHeight branch.body ≤ branchesHeight branches := by
  induction branches with
  | nil => cases h
  | cons first branches ih =>
    obtain ⟨condition, body⟩ := first
    rw [branchesHeight]
    rcases List.mem_cons.1 h with rfl | h
    · exact Nat.le_max_left _ _
    · exact Nat.le_trans (ih h) (Nat.le_max_right _ _)

theorem nodesInside_subset_of_mem {branches : List (Branch Node)} {branch : Branch Node}
    (h : branch ∈ branches) : nodesInside branch.body ⊆ branchesInside branches := by
  induction branches with
  | nil => cases h
  | cons first branches ih =>
    obtain ⟨condition, body⟩ := first
    rw [branchesInside]
    rcases List.mem_cons.1 h with rfl | h
    · exact List.subset_append_left _ _
    · exact List.subset_append_of_subset_right _ (ih h)

namespace Render

variable {env : RenderEnv} {below : Nested} {st : RenderState} {d : Descent}
  {branches : List (Branch Node)}

/-- What a request asks to be rendered is a branch of the tag, unless it is a fragment. -/
theorem body_of_mem_requestDescent? {request : Request} (hrequest : ∀ name, request ≠ .invoke name)
    (h : d ∈ requestDescent? branches st request) :
    d.body = [] ∨ ∃ branch ∈ branches, d.body = branch.body := by
  cases request with
  | body frame =>
    obtain rfl := Option.some.inj h
    cases branches with
    | nil => exact .inl rfl
    | cons branch branches => exact .inr ⟨branch, .head _, rfl⟩
  | inverse frame =>
    obtain ⟨branch, hchosen, rfl⟩ := Option.map_eq_some_iff.1 h
    exact .inr ⟨branch, List.mem_of_mem_tail (List.mem_of_find?_eq_some hchosen), rfl⟩
  | define name => cases h
  | invoke name => exact absurd rfl (hrequest name)

section Descents

variable (hhelpers : env.helpers = Registry.builtin) (hbelow : ∀ body, Balanced (below body))
include hhelpers hbelow

/-- A tag without a body has nothing rendered on the next level. -/
theorem helperDescents_eq_nil {call : Call} (hinvoke : call.name ≠ "invoke")
    (hbranch : call.name ∉ Helper.branchHelpers) :
    ((helperProgram? env call [] st.scope).map (programDescents below [] · st)).getD [] = [] := by
  refine List.eq_nil_iff_forall_not_mem.2 fun d hd => ?_
  cases hfind : env.helpers.find? call.name with
  | none => simp [helperProgram?, hfind] at hd
  | some helper =>
    simp only [helperProgram?, hfind, Option.map_some, Option.getD_some] at hd
    rw [hhelpers] at hfind
    -- Such a tag may store a fragment, but that renders nothing.
    have hasks : (helper.run (call.invocation false st.scope)).Asks
        fun request => ∃ name, request = .define name := by
      refine Helper.asks_builtin_of_call (fun h => ?_) (fun h => ?_) (fun _ name => ⟨name, rfl⟩)
        (fun h => absurd h hinvoke) hfind
      · exact h.elim (fun h => absurd h hbranch) fun h => absurd h Bool.false_ne_true
      · have hmem : call.name ∈ Helper.branchHelpers := by
          rcases h with hname | hname
          · rw [hname]; decide
          · rw [hname]; decide
        exact absurd hmem hbranch
    obtain ⟨request, mid, ⟨name, rfl⟩, -, -, hd⟩ :=
      exists_request_of_mem_programDescents hbelow hasks hd
    cases hd

/-- What a block has rendered on the next level is one of its branches. -/
theorem body_of_mem_blockDescents {call : Call} (hinvoke : call.name ≠ "invoke")
    (h : d ∈ nodeDescents env below st (.block call branches)) :
    d.body = [] ∨ ∃ branch ∈ branches, d.body = branch.body := by
  have hasks {program : Program String}
      (hprogram : program ∈ blockProgram? env call branches st.scope) :
      program.Asks fun request => ∀ name, request ≠ .invoke name := by
    rcases Option.or_eq_some_iff.1 hprogram with hhelper | ⟨-, hvariable⟩
    · obtain ⟨helper, hfind, rfl⟩ := Option.map_eq_some_iff.1 hhelper
      rw [hhelpers] at hfind
      refine Helper.asks_builtin ?_ ?_ ?_ ?_ hfind _
      · exact fun _ _ => Request.noConfusion
      · exact fun _ _ => Request.noConfusion
      · exact fun _ _ _ => Request.noConfusion
      · exact fun h => absurd h hinvoke
    · unfold variableProgram? at hvariable
      split at hvariable
      · cases hvariable
      · obtain ⟨value, -, rfl⟩ := Option.map_eq_some_iff.1 hvariable
        exact Helper.asks_variableBlock (fun _ _ => Request.noConfusion)
          (fun _ _ => Request.noConfusion) _ value
  rw [nodeDescents] at h
  cases hprogram : blockProgram? env call branches st.scope with
  | none => simp [hprogram] at h
  | some program =>
    simp only [hprogram, Option.map_some, Option.getD_some] at h
    obtain ⟨request, mid, hrequest, -, -, hd⟩ :=
      exists_request_of_mem_programDescents hbelow (hasks hprogram) h
    exact body_of_mem_requestDescent? hrequest hd

/-- What a node has rendered on the next level stands in it, and has fewer blocks inside of each
other. -/
theorem height_lt_of_mem_nodeDescents {n : Node} (hn : n.RendersBranches)
    (h : d ∈ nodeDescents env below st n) :
    nodesHeight d.body < n.height ∧ nodesInside d.body ⊆ n.inside := by
  cases n with
  | text body => cases h
  | raw body => cases h
  | output call escaped =>
    rw [nodeDescents, helperDescents_eq_nil hhelpers hbelow hn.1 hn.2] at h
    cases h
  | inline call =>
    rw [nodeDescents, helperDescents_eq_nil hhelpers hbelow hn.1 hn.2] at h
    cases h
  | block call branches =>
    rw [Node.height, Node.inside, Nat.lt_succ_iff]
    rcases body_of_mem_blockDescents hhelpers hbelow hn h with hbody | ⟨branch, hbranch, hbody⟩
    · rw [hbody]
      exact ⟨Nat.zero_le _, List.nil_subset _⟩
    · rw [hbody]
      exact ⟨nodesHeight_le_of_mem hbranch,
        List.subset_cons_of_subset _ (nodesInside_subset_of_mem hbranch)⟩
  | partialTag name context line => exact hn.elim

/-- The same for nodes one after another. -/
theorem height_lt_of_mem_nodesDescents {body : List Node}
    (hbody : ∀ n ∈ nodesInside body, n.RendersBranches)
    (h : d ∈ nodesDescents env below body st) :
    nodesHeight d.body < nodesHeight body ∧ nodesInside d.body ⊆ nodesInside body := by
  induction body generalizing st with
  | nil => cases h
  | cons first rest ih =>
    rw [nodesInside] at hbody ⊢
    obtain ⟨hfirst, hrest⟩ := List.forall_mem_append.1 hbody
    rw [nodesHeight]
    rcases List.mem_append.1 h with h | h
    · obtain ⟨hheight, hsubset⟩ :=
        height_lt_of_mem_nodeDescents hhelpers hbelow (hfirst first first.self_mem_inside) h
      exact ⟨Nat.lt_of_lt_of_le hheight (Nat.le_max_left _ _),
        List.subset_append_of_subset_left _ hsubset⟩
    · split at h
      · obtain ⟨hheight, hsubset⟩ := ih hrest h
        exact ⟨Nat.lt_of_lt_of_le hheight (Nat.le_max_right _ _),
          List.subset_append_of_subset_right _ hsubset⟩
      · cases h

end Descents

/-! ### The limit -/

theorem tagErrors_ne_tooDeep : TagErrors (· ≠ Error.tooDeep) where
  unknown _ := Error.noConfusion
  source := by
    rintro e he rfl
    exact he

/-- The built-in helpers do not complain of the limit themselves. -/
theorem failsWith_nodeProgram? (hhelpers : env.helpers = Registry.builtin) {scope : Scope}
    {n : Node} {program : Program String} (h : program ∈ nodeProgram? env scope n) :
    program.FailsWith (· ≠ Error.tooDeep) := by
  obtain ⟨call, -, helper, isBlock, hfind, rfl⟩ := exists_call_of_nodeProgram? h
  rw [hhelpers] at hfind
  refine Helper.failsWith_builtin_of_missingZone ?_ Error.noConfusion hfind _
  rintro e he rfl
  exact he

/-- Nodes do not reach the limit if enough levels are left for the blocks in them, by induction on
the number of blocks inside of each other. -/
theorem nodes_ne_tooDeep (hhelpers : env.helpers = Registry.builtin) {body : List Node}
    (hbody : ∀ n ∈ nodesInside body, n.RendersBranches)
    (hdepth : nodesHeight body + st.depth ≤ maxDepth) :
    FailsWith (· ≠ Error.tooDeep) (nodes env (nested env maxDepth) body st).1 := by
  have hbelow : ∀ body, Balanced (nested env maxDepth body) := .nested env maxDepth
  induction hheight : nodesHeight body using Nat.strongRecOn generalizing body st with
  | ind height ih =>
    refine failsWith_nodes tagErrors_ne_tooDeep hbelow body
      (fun n _ program hprogram => failsWith_nodeProgram? hhelpers hprogram) fun d hd => ?_
    -- The nodes in front of the descent have left the depth as it was, and the descent has fewer
    -- blocks inside of each other than the nodes, so there is a level left for it.
    obtain ⟨hlower, hsubset⟩ := height_lt_of_mem_nodesDescents hhelpers hbelow hbody hd
    have hkept : d.state.depth = st.depth := (descends_of_mem_nodesDescents hbelow body hd).2
    rw [recurs_nested env d.body]
    refine failsWith_deeper (fun hfull => by omega) fun _ => ?_
    refine ih _ (hheight ▸ hlower) (fun n hn => hbody n (hsubset hn)) ?_ rfl
    show nodesHeight d.body + (d.state.depth + 1) ≤ maxDepth
    omega

/-- With conditions that hold, blocks `if` inside of each other give the text in them, unless there
are too many of them for the levels that are left. -/
theorem nodes_ifs (hhelpers : env.helpers = Registry.builtin)
    (tags : List (Guard "if" × List (Branch Node))) (inner : String)
    (htags : ∀ tag ∈ tags, (st.scope.resolveParam tag.1.condition).isTruthy = true)
    (hdepth : st.depth ≤ maxDepth) :
    (nodes env (nested env maxDepth) (Node.ifs tags inner) st).1 =
      if tags.length + st.depth ≤ maxDepth then .ok inner else .error .tooDeep := by
  induction tags generalizing st with
  | nil =>
    rw [Node.ifs, nodes_singleton, if_pos (by simpa using hdepth)]
    rfl
  | cons tag tags ih =>
    obtain ⟨guard, later⟩ := tag
    obtain ⟨htrue, htags⟩ := List.forall_mem_cons.1 htags
    rw [Node.ifs, nodes_singleton, node_if hhelpers, if_pos htrue, recurs_nested env, deeper,
      List.length_cons]
    by_cases hfull : maxDepth ≤ st.depth
    · rw [if_pos hfull, if_neg (by omega)]
      rfl
    · have hnext := @ih { st with depth := st.depth + 1 } htags (by show st.depth + 1 ≤ _; omega)
      rw [if_neg hfull]
      rw [Nat.add_right_comm]
      exact hnext

/-- **The nesting limit is exact.** With the built-in helpers and on any data:

* a template that has no partials, does not call `invoke`, calls no helper without a body that would
  ask for one, and has at most `maxDepth` blocks inside of each other, does not reach the limit;
* blocks `if` inside of each other whose conditions hold give the text in them if there are at most
  `maxDepth` of them, and reach the limit otherwise. -/
theorem template_nesting (hhelpers : env.helpers = Registry.builtin) (data : Value)
    (dataVariables : Bool) (cache : Cache) :
    let start : RenderState := ⟨Scope.ofRoot data dataVariables, [], 0, cache⟩
    (∀ t : Template, (∀ n ∈ nodesInside t.nodes, n.RendersBranches) →
        nodesHeight t.nodes ≤ maxDepth →
        (template env t start).1 ≠ .error (.render (.nesting maxDepth))) ∧
      ∀ (tags : List (Guard "if" × List (Branch Node))) (inner : String),
        (∀ tag ∈ tags, (start.scope.resolveParam tag.1.condition).isTruthy = true) →
        (template env ⟨Node.ifs tags inner⟩ start).1 =
          if tags.length ≤ maxDepth then .ok inner else .error (.render (.nesting maxDepth)) := by
  intro start
  refine ⟨fun t ht hheight hlimit => ?_, fun tags inner htags => ?_⟩
  · exact @nodes_ne_tooDeep env start hhelpers t.nodes ht hheight _ hlimit rfl
  · exact nodes_ifs hhelpers tags inner htags (Nat.zero_le _)

/-- A loop with a fragment and another branch in it, and blocks `if` up to the limit and beyond. -/
theorem template_nesting_each :
    let path (name : String) : Path := ⟨name, false, 0, [name], none⟩
    let call (name : String) (params : List Param) : Call := ⟨name, path name, params, [], 1⟩
    let loop : Node :=
      .block (call "each" [.path (path "rows")])
        [⟨none, [.block (call "define" [.path (path "f")]) [⟨none, [.text "x"]⟩],
            .output (call "upper" [.path (path "this")]) true]⟩,
          ⟨none, [.inline (call "empty" [])]⟩]
    let always : Param := .literal (.bool true)
    let tag : Guard "if" × List (Branch Node) := (⟨call "if" [always], always, rfl, rfl⟩, [])
    let env : RenderEnv := ⟨Registry.builtin, .verbatim, id⟩
    let data : Value := .map [("rows", .list [.int 1, .int 2])]
    let start : RenderState := ⟨Scope.ofRoot data false, [], 0, .none⟩
    (template env ⟨[loop]⟩ start).1 ≠ .error (.render (.nesting maxDepth)) ∧
      (template env ⟨Node.ifs (List.replicate 64 tag) "x"⟩ start).1 = .ok "x" ∧
      (template env ⟨Node.ifs (List.replicate 65 tag) "x"⟩ start).1 =
        .error (.render (.nesting maxDepth)) := by
  intro path call loop always tag env data start
  have hhelpers : env.helpers = Registry.builtin := rfl
  have htags (n : Nat) : ∀ t ∈ List.replicate n tag,
      (start.scope.resolveParam t.1.condition).isTruthy = true := by
    intro t ht
    obtain rfl := List.eq_of_mem_replicate ht
    rfl
  obtain ⟨hfree, hexact⟩ := template_nesting hhelpers data false .none
  refine ⟨hfree ⟨[loop]⟩ (by decide) (by decide), ?_, ?_⟩
  · exact (hexact (List.replicate 64 tag) "x" (htags 64)).trans (if_pos (by simp [maxDepth]))
  · exact (hexact (List.replicate 65 tag) "x" (htags 65)).trans (if_neg (by simp [maxDepth]))

end Render

end Stencil
