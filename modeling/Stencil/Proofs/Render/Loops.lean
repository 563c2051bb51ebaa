import Stencil.Proofs.Helper.Turns
import Stencil.Proofs.Render.Conditions
import Stencil.Proofs.Render.SelfContained

/-!
# Blocks that enter frames

A block `with` renders its main body in a frame, a block `each` in one frame after another, and a
block `repeat` a number of times in the frame that it stands in. A block whose name is a variable
does what `each` or `with` does for the value of the variable. A loop can be cut in two: it leaves
nothing behind for its later turns but the fragments that the earlier ones store.

## Main definitions

* `Render.loop` - a step in one frame after another
* `Path.withSlice` - a path with a slice behind it

Main statements: `Render.node_section`, `Render.nodes_split`.
-/

namespace Stencil

/-- A path with a slice behind it. -/
def Path.withSlice (p : Path) (slice : Slice) : Path :=
  { p with raw := p.raw ++ String.ofList slice.spell, slice := some slice }

/-- The slice of a path is taken from what the path means. -/
theorem Scope.resolveParam_withSlice {s : Scope} {p : Path} {value : Value} (slice : Slice)
    (h : s.resolve? p = some value) :
    s.resolveParam (.path (p.withSlice slice)) = slice.apply value := by
  have hanswer : s.resolve? (p.withSlice slice) = some value := h
  rw [resolveParam, resolveSliced?, hanswer]
  rfl

namespace Render

instance : LawfulMonad Render :=
  LawfulMonad.mk' Render
    (fun x => by
      funext st
      show Render.bind x _ st = x st
      unfold Render.bind
      cases x st with
      | mk result mid =>
        cases result with
        | error e => rfl
        | ok a => rfl)
    (fun _ _ => rfl)
    (fun x f g => by
      funext st
      show Render.bind (Render.bind x f) g st = Render.bind x (fun a => Render.bind (f a) g) st
      unfold Render.bind
      cases x st with
      | mk result mid =>
        cases result with
        | error e => rfl
        | ok a => rfl)

variable {env : RenderEnv} {below : Nested} {st : RenderState}

/-! ### Loops -/

/-- Does a step in one frame after another, and puts the texts behind each other. -/
def loop (x : Render String) : List (Option Frame) → Render String
  | [] => pure ""
  | frame :: frames => do
    let front ← within frame x
    let back ← loop x frames
    return front ++ back

theorem Balanced.loop {x : Render String} (hx : Balanced x) (frames : List (Option Frame)) :
    Balanced (Render.loop x frames) := by
  induction frames with
  | nil => exact .pure ""
  | cons frame frames ih => exact .bind (.within frame hx) fun _ => .bind ih fun _ => .pure _

/-- The first turns of a loop, and then the others. -/
theorem loop_append (x : Render String) (front back : List (Option Frame)) :
    loop x (front ++ back) = do
      let a ← loop x front
      let b ← loop x back
      return a ++ b := by
  induction front with
  | nil => simp only [List.nil_append, loop, pure_bind, String.empty_append, bind_pure]
  | cons frame front ih =>
    simp only [List.cons_append, loop, ih, bind_assoc, pure_bind, String.append_assoc]

/-- A loop gives the same in other frames, if each turn does. -/
theorem loop_congr {x : Render String} (hx : Balanced x) {s : Scope}
    {frames frames' : List (Option Frame)}
    (h : List.Forall₂ (fun frame frame' => ∀ mid : RenderState, mid.scope = s →
      within frame' x mid = within frame x mid) frames frames') (hst : st.scope = s) :
    loop x frames' st = loop x frames st := by
  induction h generalizing st with
  | nil => rfl
  | @cons frame frame' frames frames' hframe _ ih =>
    refine bind_congr (hframe st hst) fun front mid hstep => ?_
    have hkept : (within frame' x st).2.scope = st.scope := (Balanced.within frame' hx st).1
    rw [hstep, hst] at hkept
    exact bind_congr (ih hkept) fun back last _ => rfl

/-- A helper that asks for its main body in one frame after another runs a loop. -/
theorem run_bodies (branches : List (Branch Node)) (out : String) (frames : List (Option Frame)) :
    run (answer below branches) (Program.bodies out frames) = do
      let text ← loop (below (mainBody branches)) frames
      return out ++ text := by
  induction frames generalizing out with
  | nil =>
    funext st
    show (Except.ok out, st) = (Except.ok (out ++ ""), st)
    rw [String.append_empty]
  | cons frame frames ih =>
    funext st
    show run (answer below branches) (Program.bind
        (.done (within frame (below (mainBody branches)) st).1)
        fun text => Program.bodies (out ++ text) frames)
        (within frame (below (mainBody branches)) st).2 =
      (loop (below (mainBody branches)) (frame :: frames) >>= fun text => pure (out ++ text)) st
    simp only [loop, bind_assoc, pure_bind, ← String.append_assoc]
    -- The text so far stands in front of what the first turn gives, which is then the text so far
    -- for the other turns.
    show _ = Render.bind (within frame (below (mainBody branches)))
      (fun front => loop (below (mainBody branches)) frames >>= fun back =>
        pure (out ++ front ++ back)) st
    unfold Render.bind
    cases within frame (below (mainBody branches)) st with
    | mk result mid =>
      cases result with
      | error e => rfl
      | ok front => exact congrFun (ih (out ++ front)) mid

theorem run_bodies_empty (branches : List (Branch Node)) (frames : List (Option Frame)) :
    run (answer below branches) (Program.bodies "" frames) =
      loop (below (mainBody branches)) frames := by
  simp only [run_bodies, String.empty_append, bind_pure]

/-! ### The blocks -/

section Blocks

variable (hhelpers : env.helpers = Registry.builtin)
include hhelpers

theorem node_with (guard : Guard "with") (branches : List (Branch Node)) :
    node env below (.block guard.call branches) st =
      let value := st.scope.resolveParam guard.condition
      if value.isTruthy then within (some ⟨value, none⟩) (below (mainBody branches)) st
      else inverse below branches.tail st := by
  have hfind : env.helpers.find? "with" = some Helper.withValue := by rw [hhelpers]; rfl
  refine (node_guard guard hfind _).trans ?_
  dsimp only
  split
  · rfl
  · rfl

theorem node_each (guard : Guard "each") (branches : List (Branch Node)) :
    node env below (.block guard.call branches) st =
      let value := st.scope.resolveParam guard.condition
      if value.elements = [] then inverse below branches.tail st
      else loop (below (mainBody branches)) (Helper.turns st.scope.dataVariables value) st := by
  have hfind : env.helpers.find? "each" = some Helper.each := by rw [hhelpers]; rfl
  refine (node_guard guard hfind _).trans ?_
  rw [Helper.each_next]
  dsimp only
  split
  · rfl
  · exact congrFun (run_bodies_empty branches _) st

/-- What has elements is iterated. -/
theorem node_each_of_ne (guard : Guard "each") (branches : List (Branch Node)) {value : Value}
    (hvalue : st.scope.resolveParam guard.condition = value) (hne : value.elements ≠ []) :
    node env below (.block guard.call branches) st =
      loop (below (mainBody branches)) (Helper.turns st.scope.dataVariables value) st := by
  refine (node_each hhelpers guard branches).trans ?_
  dsimp only
  rw [hvalue, if_neg hne]

theorem node_repeat (guard : Guard "repeat") (branches : List (Branch Node)) {n : Nat}
    (hcount : st.scope.resolveParam guard.condition = .ofNat n) (hn : n ≤ Helper.maxRepeat) :
    node env below (.block guard.call branches) st =
      loop (below (mainBody branches)) (List.replicate n none) st := by
  have hfind : env.helpers.find? "repeat" = some Helper.repeated := by rw [hhelpers]; rfl
  refine (node_guard guard hfind _).trans ?_
  rw [hcount, Helper.repeatCount_ofNat hn]
  exact congrFun (run_bodies_empty branches _) st

omit hhelpers in
/-- A block for the value of a variable. -/
theorem node_variable {call : Call} {value : Value} (hfind : env.helpers.find? call.name = none)
    (harguments : call.hasArguments = false)
    (hvalue : st.scope.resolveSliced? call.path = some value) (branches : List (Branch Node)) :
    node env below (.block call branches) st =
      run (answer below branches)
        (Helper.variableBlock (call.invocation (!branches.isEmpty) st.scope) value) st := by
  simp only [node, block, hfind]
  show Render.bind (readScope (·.resolveSliced? call.path)) _ st = _
  simp only [Render.bind, readScope, hvalue, harguments]
  rfl

/-- **Blocks for variables.** With the built-in helpers and in every state of a render, a block
without arguments whose name is a variable and not that of a helper does exactly what `each` does
with the variable and the same branches if the value is a list, empty or not, and what `with` does
for every other value. -/
theorem node_section {call : Call} {value : Value} (hfind : env.helpers.find? call.name = none)
    (harguments : call.hasArguments = false)
    (hvalue : st.scope.resolveSliced? call.path = some value)
    (eachTag : Guard "each") (heach : eachTag.condition = .path call.path)
    (withTag : Guard "with") (hwith : withTag.condition = .path call.path)
    (branches : List (Branch Node)) :
    (∀ items, value = .list items →
      node env below (.block call branches) st =
        node env below (.block eachTag.call branches) st) ∧
    ((∀ items, value ≠ .list items) →
      node env below (.block call branches) st =
        node env below (.block withTag.call branches) st) := by
  have hparam : st.scope.resolveParam (.path call.path) = value := by
    rw [Scope.resolveParam, hvalue]
    rfl
  rw [node_variable hfind harguments hvalue, node_each hhelpers, node_with hhelpers, heach, hwith,
    hparam]
  constructor
  · rintro items rfl
    cases items with
    | nil => rfl
    | cons item items => exact congrFun (run_bodies_empty branches _) st
  · intro hlist
    have hprogram (invocation : Invocation) : Helper.variableBlock invocation value =
        if value.isTruthy then Program.body (some ⟨value, none⟩) else Program.inverse none := by
      cases value with
      | list items => exact absurd rfl (hlist items)
      | _ => rfl
    rw [hprogram]
    dsimp only
    split
    · rfl
    · rfl

end Blocks

/-- A slice of a list, whose turns have positions and store a fragment, and the same slice of a
map. -/
theorem node_section_slice :
    let path (name : String) : Path := ⟨name, false, 0, [name], none⟩
    let slice : Path := (path "rows").withSlice ⟨1, 2⟩
    let index : Path := ⟨"@index", true, 0, ["index"], none⟩
    let read (p : Path) : Node := .output ⟨p.raw, p, [], [], 1⟩ true
    let call (name : String) (p : Path) : Call := ⟨name, path name, [.path p], [], 1⟩
    let eachTag : Guard "each" := ⟨call "each" slice, .path slice, rfl, rfl⟩
    let withTag : Guard "with" := ⟨call "with" slice, .path slice, rfl, rfl⟩
    let env : RenderEnv := ⟨Registry.builtin, .verbatim, id⟩
    let st (rows : Value) : RenderState :=
      ⟨⟨[⟨.map [("b", .int 7)], none⟩], .map [("rows", rows)], true⟩, [], 62, .none⟩
    let tag : Call := ⟨"rows[1:2]", slice, [], [], 1⟩
    let branches : List (Branch Node) :=
      [⟨none, [.block (call "define" (path "f")) [⟨none, [read index]⟩], read index,
        read (path "b"), .text ";"]⟩, ⟨none, [.text "none"]⟩]
    let below := nested env maxDepth
    let items : Value := .list [.int 1, .map [("b", .int 2)], .null]
    let entries : Value := .map [("a", .null), ("b", .int 3), ("c", .null)]
    tag.hasArguments = false ∧ env.helpers.find? tag.name = none ∧
      (st items).scope.resolveSliced? slice = some (.list [.map [("b", .int 2)], .null]) ∧
      node env below (.block tag branches) (st items) =
        node env below (.block eachTag.call branches) (st items) ∧
      (node env below (.block tag branches) (st items)).1.toOption = some "02;17;" ∧
      (st entries).scope.resolveSliced? slice = some (.map [("b", .int 3), ("c", .null)]) ∧
      node env below (.block tag branches) (st entries) =
        node env below (.block withTag.call branches) (st entries) ∧
      (node env below (.block tag branches) (st entries)).1.toOption = some "3;" := by
  intro path slice index read call eachTag withTag env st tag branches below items entries
  have hhelpers : env.helpers = Registry.builtin := rfl
  have hfind : env.helpers.find? tag.name = none := rfl
  have hitems : (st items).scope.resolveSliced? slice =
      some (.list [.map [("b", .int 2)], .null]) := rfl
  have hentries : (st entries).scope.resolveSliced? slice =
      some (.map [("b", .int 3), ("c", .null)]) := rfl
  obtain ⟨hlist, -⟩ :=
    node_section hhelpers hfind rfl hitems eachTag rfl withTag rfl branches
  obtain ⟨-, hother⟩ :=
    node_section hhelpers hfind rfl hentries eachTag rfl withTag rfl branches
  exact ⟨rfl, hfind, hitems, hlist _ rfl, by decide +kernel, hentries, hother nofun,
    by decide +kernel⟩

/-! ### Two loops in place of one -/

/-- The frames of a loop enter values; what else is in them is not noticed by a body with plain
paths. -/
theorem forall₂_within {x : Render String} (hbalanced : Balanced x) (hx : Transfers Path.IsPlain x)
    (s : Scope) {frames frames' : List (Option Frame)}
    (hvalues : frames.map (Option.map Frame.value) = frames'.map (Option.map Frame.value)) :
    List.Forall₂ (fun frame frame' => ∀ mid : RenderState, mid.scope = s →
      within frame' x mid = within frame x mid) frames frames' := by
  refine (Helper.forall₂_of_values hvalues).imp fun frame frame' hvalue mid _ =>
    within_eq_of_agree hbalanced hx mid frame frame' ?_
  cases hvalue with
  | none => exact .of_values rfl rfl
  | some hentered => exact .of_values (congrArg (· :: mid.scope.values) hentered) rfl

/-- Two nodes that run the two parts of a loop give what a node gives that runs it all. -/
theorem nodes_of_loops {x : Render String} (hx : Balanced x) {whole first second : Node}
    {frames front back : List (Option Frame)}
    (hwhole : node env below whole st = loop x frames st)
    (hfirst : node env below first st = loop x front st)
    (hsecond : ∀ mid : RenderState, mid.scope = st.scope →
      node env below second mid = loop x back mid)
    (hframes : loop x (front ++ back) st = loop x frames st) :
    nodes env below [first, second] st = nodes env below [whole] st := by
  rw [nodes_singleton, hwhole, ← hframes, loop_append]
  show (node env below first >>= fun a =>
    nodes env below [second] >>= fun b => pure (a ++ b)) st = _
  rw [nodes_singleton]
  refine bind_congr hfirst fun a mid hstep => bind_congr (hsecond mid ?_) fun b last _ => rfl
  have hkept : (loop x front st).2.scope = st.scope := (Balanced.loop hx front st).1
  rw [← hfirst, hstep] at hkept
  exact hkept

/-- **Splitting a loop.** With the built-in helpers and in every state of a render:

* `each` over a list or map gives what `each` over its first elements and then `each` over the
  others gives, if neither partials nor `invoke` nor a path with the mark of data variables is in
  its main body;
* `repeat` gives what two blocks `repeat` give whose counts add up to its own.

The text or the error is the same, and so is the state behind them. -/
theorem nodes_split (hhelpers : env.helpers = Registry.builtin) (levels : Nat) (st : RenderState) :
    (∀ (p : Path) (value : Value) (k m : UInt64) (body : List Node) (others : List (Branch Node))
      (whole first second : Guard "each"),
      p.slice = none → st.scope.resolve? p = some value →
      0 < k.toNat → k.toNat < value.elements.length →
      value.elements.length - k.toNat ≤ m.toNat →
      SelfContained env.helpers Path.IsPlain (nodesPieces body) →
      whole.condition = .path p → first.condition = .path (p.withSlice ⟨0, k⟩) →
      second.condition = .path (p.withSlice ⟨k, m⟩) →
      let block (tag : Guard "each") : Node := .block tag.call (⟨none, body⟩ :: others)
      nodes env (nested env levels) [block first, block second] st =
        nodes env (nested env levels) [block whole] st) ∧
    ∀ (a b : Nat) (branches : List (Branch Node)) (whole first second : Guard "repeat"),
      a + b ≤ Helper.maxRepeat →
      st.scope.resolveParam whole.condition = .ofNat (a + b) →
      st.scope.resolveParam first.condition = .ofNat a →
      st.scope.resolveParam second.condition = .ofNat b →
      let block (tag : Guard "repeat") : Node := .block tag.call branches
      nodes env (nested env levels) [block first, block second] st =
        nodes env (nested env levels) [block whole] st := by
  constructor
  · intro p value k m body others whole first second hslice hvalue hpos hlt hrest hbody hwhole
      hfirst hsecond block
    have hall : st.scope.resolveParam whole.condition = value := by
      rw [hwhole, Scope.resolveParam, Scope.resolveSliced?, hvalue]
      simp only [Option.map_some, Option.getD_some, Scope.sliced, hslice]
    have hfront : st.scope.resolveParam first.condition = value.slice 0 k.toNat := by
      rw [hfirst, Scope.resolveParam_withSlice _ hvalue]
      rfl
    have hback : st.scope.resolveParam second.condition = value.slice k.toNat m.toNat := by
      rw [hsecond, Scope.resolveParam_withSlice _ hvalue]
      rfl
    -- None of the three loops is empty, so the other branches do not count.
    have hne : value.elements ≠ [] := List.ne_nil_of_length_pos (by omega)
    have hneFront : (value.slice 0 k.toNat).elements ≠ [] := by
      rw [Value.elements_slice]
      exact List.ne_nil_of_length_pos (by rw [List.length_take, List.length_drop]; omega)
    have hneBack : (value.slice k.toNat m.toNat).elements ≠ [] := by
      rw [Value.elements_slice]
      exact List.ne_nil_of_length_pos (by rw [List.length_take, List.length_drop]; omega)
    have hlast (mid : RenderState) (hmid : mid.scope = st.scope) :
        node env (nested env levels) (block second) mid = loop (nested env levels body)
          (Helper.turns st.scope.dataVariables (value.slice k.toNat m.toNat)) mid := by
      rw [← hmid] at hback ⊢
      exact node_each_of_ne hhelpers second _ hback hneBack
    refine nodes_of_loops (.nested env levels body) (node_each_of_ne hhelpers whole _ hall hne)
      (node_each_of_ne hhelpers first _ hfront hneFront) hlast ?_
    refine loop_congr (.nested env levels body) (forall₂_within (.nested env levels body)
      (.nested hhelpers levels hbody) st.scope ?_) rfl
    have hcovered :
        ((Helper.turns st.scope.dataVariables value).drop k.toNat).length ≤ m.toNat := by
      rw [List.length_drop, Helper.length_turns]
      exact hrest
    rw [List.map_append, Helper.turns_slice, Helper.turns_slice, List.drop_zero,
      List.take_of_length_le hcovered, ← List.map_append, List.take_append_drop]
  · intro a b branches whole first second hsum hwhole hfirst hsecond block
    have hlast (mid : RenderState) (hmid : mid.scope = st.scope) :
        node env (nested env levels) (block second) mid =
          loop (nested env levels (mainBody branches)) (List.replicate b none) mid :=
      node_repeat hhelpers second branches (by rwa [hmid]) (by omega)
    refine nodes_of_loops (.nested env levels (mainBody branches))
      (node_repeat hhelpers whole branches hwhole hsum)
      (node_repeat hhelpers first branches hfirst (by omega)) hlast ?_
    rw [List.replicate_append_replicate]

/-- A map of three entries, cut behind the first one, with a loop and a fragment in the body; and a
count whose body has a partial and a fragment that the turn before has stored. -/
theorem nodes_split_map :
    let path (name : String) : Path := ⟨name, false, 0, [name], none⟩
    let this : Path := ⟨"this", false, 0, [], none⟩
    let read (p : Path) : Node := .output ⟨p.raw, p, [], [], 1⟩ true
    let call (name : String) (param : Param) : Call := ⟨name, path name, [param], [], 1⟩
    let eachTag (p : Path) : Guard "each" := ⟨call "each" (.path p), .path p, rfl, rfl⟩
    let repeatTag (n : Int64) : Guard "repeat" :=
      ⟨call "repeat" (.literal (.int n)), .literal (.int n), rfl, rfl⟩
    let env : RenderEnv := ⟨Registry.builtin, .table [("p", "!")], id⟩
    let rows : Value := .map [("a", .list [.int 1, .int 2]), ("b", .str "x"), ("c", .list [.int 3])]
    let st : RenderState :=
      ⟨⟨[⟨.map [("rows", rows)], none⟩], .map [("sep", .str ",")], true⟩, [], 62, .none⟩
    let body : List Node := [.block (eachTag this).call [⟨none, [read this, read (path "sep")]⟩],
      .block (call "define" (.path (path "f"))) [⟨none, [read this]⟩], .text ";"]
    let others : List (Branch Node) := [⟨none, [.text "none"]⟩]
    let each (p : Path) : Node := .block (eachTag p).call (⟨none, body⟩ :: others)
    let again : List (Branch Node) :=
      [⟨none, [.partialTag "p" none 1, .inline (call "invoke" (.path (path "g"))),
        .block (call "define" (.path (path "g"))) [⟨none, [.text "g"]⟩]]⟩]
    let count (n : Int64) : Node := .block (repeatTag n).call again
    let below := nested env maxDepth
    SelfContained env.helpers Path.IsPlain (nodesPieces body) ∧
      st.scope.resolve? (path "rows") = some rows ∧ rows.elements.length = 3 ∧
      nodes env below [each ((path "rows").withSlice ⟨0, 1⟩), each ((path "rows").withSlice ⟨1, 9⟩)]
        st = nodes env below [each (path "rows")] st ∧
      (nodes env below [each (path "rows")] st).1.toOption = some "1,2,;;3,;" ∧
      nodes env below [count 1, count 2] st = nodes env below [count 3] st ∧
      (nodes env below [count 3] st).1.toOption = some "!!g!g" := by
  intro path this read call eachTag repeatTag env rows st body others each again count below
  have hhelpers : env.helpers = Registry.builtin := rfl
  have hbody : SelfContained env.helpers Path.IsPlain (nodesPieces body) := by decide +kernel
  obtain ⟨heach, hrepeat⟩ := nodes_split hhelpers maxDepth st
  refine ⟨hbody, rfl, rfl, ?_, by decide +kernel, ?_, by decide +kernel⟩
  · exact heach (path "rows") rows 1 9 body others (eachTag _) (eachTag _) (eachTag _) rfl rfl
      (by decide) (by decide) (by decide) hbody rfl rfl rfl
  · exact hrepeat 1 2 again (repeatTag 3) (repeatTag 1) (repeatTag 2) (by decide) rfl rfl rfl

end Render

end Stencil
