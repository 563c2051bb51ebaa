import Stencil.Proofs.Render.Conditions
import Stencil.Proofs.Render.Written
import Stencil.Proofs.Scope.LoopVariables

/-!
# Loops inside of each other

The turns of `each` enter frames, and so do `with`, blocks for variables and partials with a
context; no other tag does. Inside of any nest of loops and of tags that enter no frame, the frames
are therefore those of the turns around it, and their variables can be reached by steps outwards.

## Main definitions

* `Render.Enters` - what is rendered for a node one level deeper, in a turn of a loop or in the
  frame that the node stands in
* `Render.Nest` - nodes inside of turns and of tags that enter no frame

Main statement: `Render.Nest.loopVariables`.
-/

namespace Stencil

/-- A request that enters no frame. -/
def Request.KeepsFrame : Request → Prop
  | .body frame => frame = none
  | .inverse frame => frame = none
  | .define _ => True
  | .invoke _ => True

namespace Render

variable {α : Type} {env : RenderEnv} {below : Nested} {st : RenderState} {next : Descent}
  {branches : List (Branch Node)}

/-- What is rendered one level deeper for a node that is no `with` and no block for a variable: in
the same frame for all other tags of helpers but `each`, and for partials without a context; and in
the frame of a turn for the main body of `each`, which counts as one turn of what it iterates. -/
inductive Enters (env : RenderEnv) (s : Step) : Option Turn → Descent → Prop where
  | tag {call : Call} {branches : List (Branch Node)} {helper : Helper} {next : Descent}
      (htag : s.node.tag? = some (call, branches))
      (hfind : env.helpers.find? call.name = some helper)
      (hwith : call.name ≠ "with") (heach : call.name ≠ "each")
      (hnext : next ∈ nodeDescents env (nested env maxDepth) s.state s.node) :
      Enters env s none next
  | partialTag {name : String} {line : Nat} {next : Descent}
      (hnode : s.node = .partialTag name none line)
      (hnext : next ∈ nodeDescents env (nested env maxDepth) s.state s.node) :
      Enters env s none next
  | turn {guard : Guard "each"} {branches : List (Branch Node)} {turn : Turn} {next : Descent}
      (hnode : s.node = .block guard.call branches)
      (hcollection : turn.collection = s.state.scope.resolveParam guard.condition)
      (hposition : turn.position < turn.collection.elements.length)
      (hnext : (nodeDescents env (nested env maxDepth) s.state s.node)[turn.position]? =
        some next) :
      Enters env s (some turn) next

/-- The nodes inside of a nest of turns and of tags that enter no frame, with the turns around them,
the innermost one first. -/
inductive Nest (env : RenderEnv) (start : Descent) : List Turn → Descent → Prop where
  | start : Nest env start [] start
  | enter {turns : List Turn} {d next : Descent} {s : Step} {turn : Option Turn}
      (hnest : Nest env start turns d) (hs : s ∈ row env (fun _ => []) d.body d.state)
      (henters : Enters env s turn next) (hdepth : next.state.depth < maxDepth) :
      Nest env start (turn.toList ++ turns)
        ⟨next.body, { next.state with depth := next.state.depth + 1 }⟩

/-! ### One level -/

/-- A node of a row is rendered in the scope of the row, and what it asks for is asked for by the
row. -/
theorem row_of_mem {body : List Node} {s : Step} (hs : s ∈ row env (fun _ => []) body st) :
    s.state.scope = st.scope ∧
      ∀ next ∈ nodeDescents env (nested env maxDepth) s.state s.node,
        next ∈ nodesDescents env (nested env maxDepth) body st := by
  induction body generalizing st with
  | nil => cases hs
  | cons first rest ih =>
    have hkept : (node env (nested env maxDepth) first st).2.scope = st.scope :=
      (Balanced.node (.nested env maxDepth) first st).1
    rw [row, List.cons_append, List.mem_cons, List.mem_append] at hs
    rcases hs with rfl | hs | hs
    · exact ⟨rfl, fun next hnext => List.mem_append_left _ hnext⟩
    · obtain ⟨d, -, hd⟩ := List.mem_flatMap.1 hs
      cases hd
    · unfold nodesDescents
      cases hstep : node env (nested env maxDepth) first st with
      | mk result mid =>
        rw [hstep] at hs hkept
        cases result with
        | error e => cases hs
        | ok text =>
          obtain ⟨hscope, hasked⟩ := ih hs
          exact ⟨hscope.trans hkept, fun next hnext => List.mem_append_right _ (hasked next hnext)⟩

/-- A partial without a context is rendered in the frame that it stands in. -/
theorem scope_of_partial {name : String} (hnext : next ∈ partialDescent? env name none st) :
    next.state.scope = st.scope := by
  unfold partialDescent? at hnext
  split at hnext
  · cases hnext
  · next source _ =>
    have hkept := (Balanced.compile source.source st).1
    split at hnext
    · cases hnext
    · next template mid hstep =>
      rw [hstep] at hkept
      obtain rfl := Option.some.inj hnext
      exact hkept

/-- A single request asks for one thing at most. -/
theorem programDescents_request (request : Request) :
    programDescents below branches (Program.request request) st =
      (requestDescent? branches st request).toList :=
  List.append_nil _

theorem head_bodies (out : String) (frame : Option Frame) (frames : List (Option Frame)) :
    (programDescents below branches (Program.bodies out (frame :: frames)) st)[0]? =
      some ⟨mainBody branches, st.enter frame⟩ := rfl

section Programs

variable (hbelow : ∀ body, Balanced (below body))
include hbelow

/-- Requests that enter no frame are answered in the frame of the tag. -/
theorem scope_of_keepsFrame {program : Program α} (hprogram : program.Asks Request.KeepsFrame)
    (hnext : next ∈ programDescents below branches program st) :
    next.state.scope = st.scope := by
  obtain ⟨request, mid, hrequest, hscope, -, hnext⟩ :=
    exists_request_of_mem_programDescents hbelow hprogram hnext
  cases request with
  | body frame =>
    obtain rfl : frame = none := hrequest
    obtain rfl := Option.some.inj hnext
    exact hscope
  | inverse frame =>
    obtain rfl : frame = none := hrequest
    obtain ⟨branch, -, rfl⟩ := Option.map_eq_some_iff.1 hnext
    exact hscope
  | define name => cases hnext
  | invoke name =>
    obtain ⟨body, -, rfl⟩ := Option.map_eq_some_iff.1 hnext
    exact hscope

/-- The main body is rendered in one frame after another. -/
theorem scope_of_bodies (out : String) {frames : List (Option Frame)} {i : Nat}
    (hnext : (programDescents below branches (Program.bodies out frames) st)[i]? = some next) :
    ∃ frame, frames[i]? = some frame ∧ next.state.scope = (st.enter frame).scope := by
  induction frames generalizing i out st with
  | nil => cases hnext
  | cons frame frames ih =>
    have hkept := (Balanced.answer hbelow branches (.body frame) st).1
    cases i with
    | zero =>
      rw [head_bodies] at hnext
      obtain rfl := Option.some.inj hnext
      exact ⟨frame, rfl, rfl⟩
    | succ i =>
      change (programDescents below branches (Program.bind
        (.done (answer below branches (.body frame) st).1) fun text =>
          Program.bodies (out ++ text) frames) (answer below branches (.body frame) st).2)[i]? =
            some next at hnext
      cases hstep : answer below branches (.body frame) st with
      | mk result mid =>
        rw [hstep] at hnext hkept
        cases result with
        | error e => cases hnext
        | ok text =>
          obtain ⟨later, hframe, hscope⟩ := ih (out ++ text) hnext
          refine ⟨later, hframe, hscope.trans ?_⟩
          cases later with
          | none => exact hkept
          | some entered => exact congrArg (Scope.push · entered) hkept

end Programs

/-! ### Nests -/

section Nests

variable (hhelpers : env.helpers = Registry.builtin) {s : Step} {turns : List Turn}
include hhelpers

/-- What has elements is iterated by `each`. -/
theorem nodeDescents_each (guard : Guard "each") (branches : List (Branch Node)) {value : Value}
    (hvalue : st.scope.resolveParam guard.condition = value) (hne : value.elements ≠ []) :
    nodeDescents env below st (.block guard.call branches) = programDescents below branches
      (Program.bodies "" (Helper.turns st.scope.dataVariables value)) st := by
  have hfind : env.helpers.find? guard.call.name = some Helper.each := by
    rw [guard.name_eq, hhelpers]
    rfl
  have hrun : Helper.each.run (guard.call.invocation (!branches.isEmpty) st.scope) =
      Program.bodies "" (Helper.turns st.scope.dataVariables value) := by
    show (Helper.argument _ 0 >>= fun value => _) = _
    rw [guard.argument_eq, hvalue]
    show (if value.isBlank || !Helper.isCollection value then Program.inverse none
      else Helper.iterate _ value) = _
    rw [Helper.each_next, if_neg hne]
    rfl
  have htag : (Node.block guard.call branches).tag? = some (guard.call, branches) := rfl
  rw [nodeDescents_tag htag hfind, hrun]

/-- A turn adds its variables, and nothing else adds any. -/
theorem Enters.hasTurns {turn : Option Turn} (h : Enters env s turn next)
    (hturns : s.state.scope.HasTurns turns) :
    next.state.scope.HasTurns (turn.toList ++ turns) := by
  cases h with
  | @tag call branches helper _ htag hfind hwith heach hnext =>
    rw [nodeDescents_tag htag hfind] at hnext
    rw [hhelpers] at hfind
    have hasks : (helper.run (call.invocation (!branches.isEmpty) s.state.scope)).Asks
        Request.KeepsFrame := by
      refine Helper.asks_builtin_of_name ?_ ?_ ?_ ?_ ?_ hfind _
      · exact rfl
      · exact rfl
      · exact fun h => (h.elim hwith heach).elim
      · exact fun _ _ => trivial
      · exact fun _ _ => trivial
    rw [scope_of_keepsFrame (.nested env maxDepth) hasks hnext]
    exact hturns
  | @partialTag name line _ hnode hnext =>
    rw [hnode] at hnext
    rw [scope_of_partial (Option.mem_toList.1 hnext)]
    exact hturns
  | @turn guard branches turn _ hnode hcollection hposition hnext =>
    -- There is an element at the position of the turn, so the loop is not empty.
    have hne : turn.collection.elements ≠ [] := List.ne_nil_of_length_pos (by omega)
    rw [hnode, nodeDescents_each hhelpers guard branches hcollection.symm hne, hturns.enabled]
      at hnext
    obtain ⟨frame, hframe, hscope⟩ := scope_of_bodies (.nested env maxDepth) "" hnext
    rw [Helper.getElem?_turns, List.getElem?_eq_getElem hposition] at hframe
    obtain rfl := Option.some.inj hframe
    rw [hscope]
    exact hturns.push rfl

/-- The frames of a nest are those of the turns around it, by induction on the nest. -/
theorem Nest.hasTurns {start d : Descent} {data : Value}
    (hstart : start.state.scope = Scope.ofRoot data true) (h : Nest env start turns d) :
    d.state.scope.HasTurns turns := by
  induction h with
  | start =>
    rw [hstart]
    exact Scope.hasTurns_ofRoot data
  | enter _ hs henters _ ih =>
    refine henters.hasTurns hhelpers ?_
    rw [(row_of_mem hs).1]
    exact ih

omit hhelpers in
/-- A nest is a part of the render: its nodes are rendered while those at the start are. -/
theorem Nest.leadsTo {start d : Descent} (h : Nest env start turns d) :
    Relation.ReflTransGen (LeadsTo env) start d := by
  induction h with
  | start => exact .refl
  | @enter turns d next s turn _ hs henters hdepth ih =>
    have hmem : next ∈ nodeDescents env (nested env maxDepth) s.state s.node := by
      cases henters with
      | tag _ _ _ _ hnext => exact hnext
      | partialTag _ hnext => exact hnext
      | turn _ _ _ hnext => exact List.mem_of_getElem? hnext
    exact ih.tail ⟨next, (row_of_mem hs).2 next hmem, hdepth, rfl⟩

/-- **Data variables of loops inside of each other.** With the built-in helpers and data variables
enabled, take any nest of turns of `each` and of tags that enter no frame, in their main bodies or
in other branches, and any node in it.

* This is a node of the render. If the render succeeds, the node is rendered in just this state, and
  its text is shown in the text of the render.
* The mark of data variables with `k` steps outwards and the name of a loop variable means the
  following there, for the `k`-th turn around the node, the innermost one being turn `0`: its
  position, whether it is the first turn, or the last one, and its key, which is the name of the
  entry in a map and the position in a list.
* If there are no more than `k` turns around the node, it means nothing. -/
theorem Nest.loopVariables {start d : Descent} {data : Value}
    (hstart : start.state.scope = Scope.ofRoot data true) (h : Nest env start turns d)
    (hs : s ∈ row env (fun _ => []) d.body d.state) (k : Nat) :
    s ∈ trace env maxDepth start.body start.state ∧
    (∀ out, (nodes env (nested env maxDepth) start.body start.state).1 = .ok out →
      s.IsShown env out) ∧
    (∀ turn, turns[k]? = some turn →
      let means (name : String) := s.state.scope.lookup? (loopVariable k name)
      means "index" = some (.ofNat turn.position) ∧
      means "first" = some (.bool (turn.position = 0)) ∧
      means "last" = some (.bool (turn.position + 1 = turn.collection.elements.length)) ∧
      means "key" = some (match turn.collection.keyAt? turn.position with
        | some key => .str key
        | none => .ofNat turn.position)) ∧
    (turns.length ≤ k → ∀ name ∈ LoopVars.names,
      s.state.scope.lookup? (loopVariable k name) = none) := by
  have hturns : s.state.scope.HasTurns turns := by
    rw [(row_of_mem hs).1]
    exact h.hasTurns hhelpers hstart
  have hstep : s ∈ trace env maxDepth start.body start.state :=
    (mem_trace_iff (Nat.le_add_right _ _)).2 ⟨d, h.leadsTo, hs⟩
  refine ⟨hstep, fun out hout => isShown_of_mem_trace hhelpers hout hstep, fun turn hturn => ?_,
    fun hk name hname => ?_⟩
  · have hmeans {name : String} (hname : name ∈ LoopVars.names) :
        s.state.scope.lookup? (loopVariable k name) = turn.vars.get? name := by
      rw [hturns.lookup?_eq hname, hturn]
      rfl
    refine ⟨hmeans (by decide), hmeans (by decide), hmeans (by decide), ?_⟩
    refine (hmeans (by decide)).trans ?_
    show LoopVars.key _ = _
    unfold Turn.vars LoopVars.iteration
    cases turn.collection.keyAt? turn.position with
    | none => rfl
    | some key => rfl
  · rw [hturns.lookup?_eq hname, List.getElem?_eq_none hk]
    rfl

end Nests

/-- The last entry of a map, in a loop inside of the `else` branch of `unless`, in the first turn of
a loop over a slice. -/
theorem Nest.loopVariables_else :
    let path (name : String) : Path := ⟨name, false, 0, [name], none⟩
    let this : Path := ⟨"this", false, 0, [], none⟩
    let rows : Path := ⟨"rows[1:2]", false, 0, ["rows"], some ⟨1, 2⟩⟩
    let call (name : String) (param : Param) : Call := ⟨name, path name, [param], [], 1⟩
    let eachTag (p : Path) : Guard "each" := ⟨call "each" (.path p), .path p, rfl, rfl⟩
    let read : Node := .output ⟨"@key", ⟨"@key", true, 0, ["key"], none⟩, [], [], 1⟩ true
    let inner : Node := .block (eachTag this).call [⟨none, [read]⟩]
    let choice : Node :=
      .block (call "unless" (.literal (.bool true))) [⟨none, []⟩, ⟨none, [inner]⟩]
    let outer : Node := .block (eachTag rows).call [⟨none, [choice]⟩]
    let env : RenderEnv := ⟨Registry.builtin, .verbatim, id⟩
    let entries : Value := .map [("x", .int 7), ("y", .int 8)]
    let data : Value := .map [("rows", .list [.null, entries, .str "z"])]
    let st (frames : List Frame) (depth : Nat) : RenderState :=
      ⟨⟨frames, data, true⟩, [], depth, .none⟩
    let start : Descent := ⟨[outer], st [] 0⟩
    let first : Turn := ⟨.list [entries, .str "z"], 0⟩
    let last : Turn := ⟨entries, 1⟩
    let frames : List Frame := [⟨.int 8, some last.vars⟩, ⟨entries, some first.vars⟩]
    let s : Step := ⟨read, st frames 3⟩
    let means (k : Nat) (name : String) := s.state.scope.lookup? (loopVariable k name)
    Nest env start [last, first] ⟨[read], s.state⟩ ∧
      s ∈ trace env maxDepth start.body start.state ∧
      (nodes env (nested env maxDepth) start.body start.state).1 = .ok "xy" ∧
      (node env (nested env maxDepth) s.node s.state).1 = .ok "y" ∧ s.IsShown env "xy" ∧
      (means 0 "index" = some (.int 1) ∧ means 0 "first" = some (.bool false) ∧
        means 0 "last" = some (.bool true) ∧ means 0 "key" = some (.str "y")) ∧
      (means 1 "index" = some (.int 0) ∧ means 1 "first" = some (.bool true) ∧
        means 1 "last" = some (.bool false) ∧ means 1 "key" = some (.int 0)) ∧
      ∀ name ∈ LoopVars.names, means 2 name = none := by
  intro path this rows call eachTag read inner choice outer env entries data st start first last
    frames s means
  have hhelpers : env.helpers = Registry.builtin := rfl
  have hcollection : start.state.scope.resolveParam (eachTag rows).condition =
      first.collection := rfl
  have hfirst : (nodeDescents env (nested env maxDepth) start.state outer)[0]? =
      some ⟨[choice], st [⟨entries, some first.vars⟩] 0⟩ := by
    rw [nodeDescents_each hhelpers (eachTag rows) _ hcollection (List.cons_ne_nil _ _)]
    exact head_bodies "" _ _
  have houter : Nest env start [first] ⟨[choice], st [⟨entries, some first.vars⟩] 1⟩ :=
    .enter .start (.head _) (@Enters.turn env ⟨outer, start.state⟩ (eachTag rows) _ first _ rfl
      hcollection.symm (by decide) hfirst) (by decide)
  have helse : ⟨[inner], st [⟨entries, some first.vars⟩] 1⟩ ∈
      nodeDescents env (nested env maxDepth) (st [⟨entries, some first.vars⟩] 1) choice := by
    have htag : choice.tag? =
        some (call "unless" (.literal (.bool true)), [⟨none, []⟩, ⟨none, [inner]⟩]) := rfl
    have hfind : env.helpers.find? "unless" = some Helper.unlessTrue := rfl
    have hrun (call : Invocation) (hcall : call.params = [.bool true]) :
        Helper.unlessTrue.run call = Program.request (.inverse none) := by
      simp only [Helper.unlessTrue, Helper.argument, Invocation.param, hcall]
      rfl
    rw [nodeDescents_tag htag hfind, hrun _ rfl, programDescents_request]
    exact .head _
  have hchoice : Nest env start [first] ⟨[inner], st [⟨entries, some first.vars⟩] 2⟩ :=
    .enter houter (.head _) (@Enters.tag env ⟨choice, st [⟨entries, some first.vars⟩] 1⟩ _ _ _ _
      rfl rfl (by decide) (by decide) helse) (by decide)
  have hinner : Nest env start [last, first] ⟨[read], s.state⟩ :=
    .enter hchoice (.head _) (@Enters.turn env ⟨inner, st [⟨entries, some first.vars⟩] 2⟩
      (eachTag this) _ last ⟨[read], st frames 2⟩ rfl rfl (by decide) rfl) (by decide)
  have hs : s ∈ row env (fun _ => []) [read] s.state := .head _
  have hout : (nodes env (nested env maxDepth) start.body start.state).1 = .ok "xy" :=
    toOption_eq_some.1 (by decide +kernel)
  obtain ⟨hstep, hshown, hlast, -⟩ := hinner.loopVariables hhelpers rfl hs 0
  obtain ⟨-, -, hfirst, -⟩ := hinner.loopVariables hhelpers rfl hs 1
  obtain ⟨-, -, -, hnone⟩ := hinner.loopVariables hhelpers rfl hs 2
  exact ⟨hinner, hstep, hout, rfl, hshown "xy" hout, hlast last rfl, hfirst first rfl,
    hnone (by decide)⟩

end Render

end Stencil
