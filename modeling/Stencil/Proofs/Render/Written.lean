import Stencil.Proofs.Render.Fragments

/-!
# The texts of the nodes in the text of a render

A render that succeeds puts together the texts of all nodes that it comes to, on whatever level.
Each of them has been rendered in the state that its step has in the trace, and what it has written
is shown in the text of the whole, as the tags around it have changed it.

## Main definitions

* `Helper.textFunctions` - what built-in helpers do to a rendered body
* `Render.ShownIn` - a part of a text, as tags around it have changed it
* `Program.Shows` - a course of action whose result shows all answers
* `Render.Step.IsShown` - a step whose text is shown in the text of the whole

Main statement: `Render.isShown_of_mem_trace`.
-/

namespace Stencil

/-- What built-in helpers do to the text of an argument or of a rendered body. -/
def Helper.textFunctions : List (List Char → List Char) :=
  [Text.upper, Text.lower, Text.capitalize, Text.capitalizeWords, List.reverse]

/-- A text is a part of another one: texts stand around it, and the tags around it have escaped it
or changed it as a rendered body. -/
inductive Render.ShownIn (escape : String → String) (inner : String) : String → Prop where
  | whole : ShownIn escape inner inner
  | part {text : String} (front back : String) (h : ShownIn escape inner text) :
      ShownIn escape inner (front ++ text ++ back)
  | escaped {text : String} (h : ShownIn escape inner text) : ShownIn escape inner (escape text)
  | changed {text : String} {f : List Char → List Char} (hf : f ∈ Helper.textFunctions)
      (h : ShownIn escape inner text) : ShownIn escape inner (String.ofList (f text.toList))

open Render (ShownIn)

/-- The result shows some texts and all answers, and a request that fails is the last one. -/
inductive Program.Shows (escape : String → String) : List String → Program String → Prop where
  | ok {shown : List String} {out : String} (hout : ∀ text ∈ shown, ShownIn escape text out) :
      Shows escape shown (.done (.ok out))
  | fail (shown : List String) (e : Error) : Shows escape shown (.done (.error e))
  | ask {shown : List String} {request : Request} {next : Except Error String → Program String}
      (herror : ∀ e, next (.error e) = .done (.error e))
      (htext : ∀ text, Shows escape (text :: shown) (next (.ok text))) :
      Shows escape shown (.ask request next)

variable {escape : String → String} {inner text outer out : String} {shown : List String}

namespace Render.ShownIn

theorem append_left (h : ShownIn escape inner text) (back : String) :
    ShownIn escape inner (text ++ back) := by
  have hpart := h.part "" back
  rwa [String.empty_append] at hpart

theorem append_right (h : ShownIn escape inner text) (front : String) :
    ShownIn escape inner (front ++ text) := by
  have hpart := h.part front ""
  rwa [String.append_empty] at hpart

theorem trans (h : ShownIn escape inner text) (h' : ShownIn escape text outer) :
    ShownIn escape inner outer := by
  induction h' with
  | whole => exact h
  | part front back _ ih => exact ih.part front back
  | escaped _ ih => exact ih.escaped
  | changed hf _ ih => exact ih.changed hf

/-- An output tag that escapes its text shows it. -/
theorem written {env : RenderEnv} (h : ShownIn env.escape inner text) (n : Node) :
    ShownIn env.escape inner (written env n text) := by
  cases n with
  | output call escaped =>
    cases escaped with
    | true => exact h.escaped
    | false => exact h
  | text body => exact h
  | raw body => exact h
  | inline call => exact h
  | block call branches => exact h
  | partialTag name context line => exact h

end Render.ShownIn

/-! ### Helpers -/

namespace Program.Shows

/-- A result that is known without any request. -/
theorem done (result : Except Error String) : Shows escape [] (.done result) := by
  cases result with
  | ok out => exact .ok fun text htext => (List.not_mem_nil htext).elim
  | error e => exact .fail [] e

theorem request (r : Request) : Shows escape [] (Program.request r) :=
  .ask (fun _ => rfl) fun text => .ok fun other hother => by
    obtain rfl := List.mem_singleton.1 hother
    exact .whole

theorem bind_done {α : Type} (result : Except Error α) {next : α → Program String}
    (hnext : ∀ a, Shows escape shown (next a)) :
    Shows escape shown (Program.done result >>= next) := by
  cases result with
  | ok a => exact hnext a
  | error e => exact .fail shown e

/-- One of two requests, as an argument decides. -/
theorem choice {p : Prop} [Decidable p] (x y : Request) :
    Shows escape [] (if p then Program.request x else Program.request y) := by
  split
  · exact .request x
  · exact .request y

/-- The texts of the main body stand one behind the other. -/
theorem bodies (hout : ∀ text ∈ shown, ShownIn escape text out) (frames : List (Option Frame)) :
    Shows escape shown (Program.bodies out frames) := by
  induction frames generalizing shown out with
  | nil => exact .ok hout
  | cons frame frames ih =>
    refine .ask (fun _ => rfl) fun text => ih fun other hother => ?_
    rcases List.mem_cons.1 hother with rfl | hother
    · exact ShownIn.whole.append_right out
    · exact (hout other hother).append_left text

theorem bodies_nil (frames : List (Option Frame)) :
    Shows escape [] (Program.bodies "" frames) :=
  bodies (fun _ htext => (List.not_mem_nil htext).elim) frames

end Program.Shows

namespace Helper

theorem shows_onText {f : List Char → List Char} (hf : f ∈ textFunctions) (call : Invocation) :
    ((onText f).run call).Shows escape [] := by
  obtain ⟨name, params, hash, rawParams, isBlock, scope⟩ := call
  cases params with
  | cons value values => exact .done _
  | nil =>
    cases isBlock with
    | false => exact .done _
    | true =>
      refine .ask (fun _ => rfl) fun text => .ok fun other hother => ?_
      obtain rfl := List.mem_singleton.1 hother
      exact ShownIn.whole.changed hf

theorem shows_variableBlock (call : Invocation) (value : Value) :
    (variableBlock call value).Shows escape [] := by
  unfold variableBlock
  split
  · exact .bodies_nil _
  · exact .choice _ _

/-- The built-in helpers show all that they ask for. -/
theorem shows_builtin {name : String} {helper : Helper}
    (hfind : Registry.builtin.find? name = some helper) (call : Invocation) :
    (helper.run call).Shows escape [] := by
  have hmem := Entries.mem_of_find? hfind
  simp only [Registry.builtin, List.mem_cons, List.not_mem_nil, or_false, Prod.mk.injEq] at hmem
  rcases hmem with ⟨-, rfl⟩ | ⟨-, rfl⟩ | ⟨-, rfl⟩ | ⟨-, rfl⟩ | ⟨-, rfl⟩ | ⟨-, rfl⟩ | ⟨-, rfl⟩ |
    ⟨-, rfl⟩ | ⟨-, rfl⟩ | ⟨-, rfl⟩ | ⟨-, rfl⟩ | ⟨-, rfl⟩ | ⟨-, rfl⟩ | ⟨-, rfl⟩ | ⟨-, rfl⟩ | ⟨-, rfl⟩
  · exact .bind_done _ fun value => .choice _ _
  · exact .bind_done _ fun value => .choice _ _
  · exact .bind_done _ fun value => .choice _ _
  · refine .bind_done _ fun value => ?_
    split
    · exact .request _
    · exact .bodies_nil _
  · exact shows_onText (by simp [textFunctions]) call
  · exact shows_onText (by simp [textFunctions]) call
  · exact shows_onText (by simp [textFunctions]) call
  · exact shows_onText (by simp [textFunctions]) call
  · exact shows_onText (by simp [textFunctions]) call
  · exact .done _
  · exact .done _
  · exact .done _
  · exact .done _
  · exact .bind_done _ fun value => .bind_done _ fun count => .bodies_nil _
  · exact .bind_done _ fun fragment => .request _
  · exact .bind_done _ fun fragment => .request _

end Helper

/-! ### Steps -/

namespace Render

variable {env : RenderEnv} {below : Nested} {branches : List (Branch Node)} {st : RenderState}
  {d : Descent}

/-- A descent is rendered in its state, and its text is shown. -/
def Descent.IsShown (escape : String → String) (below : Nested) (out : String) (d : Descent) :
    Prop :=
  ∃ text, (below d.body d.state).1 = .ok text ∧ ShownIn escape text out

/-- The node of a step is rendered in its state, and its text is shown. -/
def Step.IsShown (env : RenderEnv) (out : String) (s : Step) : Prop :=
  ∃ text, (Render.node env (nested env maxDepth) s.node s.state).1 = .ok text ∧
    ShownIn env.escape text out

/-- A request is answered with what its descent gives. -/
theorem answer_fst {request : Request} (hd : d ∈ requestDescent? branches st request) :
    (answer below branches request st).1 = (below d.body d.state).1 := by
  cases request with
  | body frame =>
    obtain rfl := Option.some.inj hd
    exact within_fst frame _
  | inverse frame =>
    obtain ⟨branch, hbranch, rfl⟩ := Option.map_eq_some_iff.1 hd
    rw [answer, within_fst, inverse_of_chosen?_eq_some hbranch]
  | define name => cases hd
  | invoke name =>
    obtain ⟨body, hbody, rfl⟩ := Option.map_eq_some_iff.1 hd
    rw [answer, invoke, hbody]

/-- The result of a helper shows what it has asked for, by induction on its course of action. -/
theorem isShown_of_run {program : Program String} (hprogram : program.Shows escape shown)
    (hrun : (run (answer below branches) program st).1 = .ok out) :
    (∀ text ∈ shown, ShownIn escape text out) ∧
      ∀ d ∈ programDescents below branches program st, d.IsShown escape below out := by
  induction hprogram generalizing st with
  | ok hout =>
    obtain rfl := Except.ok.inj hrun
    exact ⟨hout, fun d hd => (List.not_mem_nil hd).elim⟩
  | fail shown e => cases hrun
  | @ask shown request next herror _ ih =>
    change (run (answer below branches) (next (answer below branches request st).1)
      (answer below branches request st).2).1 = .ok out at hrun
    cases hanswer : (answer below branches request st).1 with
    | error e =>
      rw [hanswer, herror e] at hrun
      cases hrun
    | ok text =>
      rw [hanswer] at hrun
      obtain ⟨htexts, hlater⟩ := ih text hrun
      obtain ⟨htext, hshown⟩ := List.forall_mem_cons.1 htexts
      refine ⟨hshown, fun d hd => ?_⟩
      rcases List.mem_append.1 hd with hfirst | hd
      · exact ⟨text, (answer_fst (Option.mem_toList.1 hfirst)).symm.trans hanswer, htext⟩
      · change d ∈ programDescents below branches (next (answer below branches request st).1)
          (answer below branches request st).2 at hd
        rw [hanswer] at hd
        exact hlater d hd

/-- Steps one after the other succeed if both do, the second one with what the first one gives. -/
theorem exists_of_bind {α β : Type} {x : Render α} {f : α → Render β} {b : β}
    (h : ((x >>= f) st).1 = .ok b) : ∃ a mid, x st = (.ok a, mid) ∧ (f a mid).1 = .ok b := by
  change (Render.bind x f st).1 = .ok b at h
  unfold Render.bind at h
  cases hx : x st with
  | mk result mid =>
    rw [hx] at h
    cases result with
    | error e => cases h
    | ok a => exact ⟨a, mid, rfl, h⟩

/-- Nodes that are rendered give the text of the first one and the text of the others behind it. -/
theorem exists_of_nodes_cons {first : Node} {rest : List Node}
    (hout : (nodes env below (first :: rest) st).1 = .ok out) :
    ∃ front mid back, node env below first st = (.ok front, mid) ∧
      (nodes env below rest mid).1 = .ok back ∧ out = front ++ back := by
  obtain ⟨front, mid, hfirst, hlater⟩ := exists_of_bind hout
  obtain ⟨back, last, hrest, hjoined⟩ := exists_of_bind hlater
  exact ⟨front, mid, back, hfirst, by rw [hrest], (Except.ok.inj hjoined).symm⟩

section Builtin

variable (hhelpers : env.helpers = Registry.builtin)
include hhelpers

theorem isShown_of_tag {n : Node} {call : Call} {helper : Helper}
    (htag : n.tag? = some (call, branches)) (hfind : env.helpers.find? call.name = some helper)
    (hout : (node env below n st).1 = .ok out) (hd : d ∈ nodeDescents env below st n) :
    d.IsShown env.escape below out := by
  rw [node_tag htag hfind] at hout
  rw [nodeDescents_tag htag hfind] at hd
  rw [hhelpers] at hfind
  cases hcall : (callHelper below helper call branches st).1 with
  | error e =>
    rw [hcall] at hout
    cases hout
  | ok text =>
    rw [hcall] at hout
    obtain rfl := Except.ok.inj hout
    obtain ⟨inner, hinner, hshown⟩ :=
      (isShown_of_run (Helper.shows_builtin hfind _) hcall).2 d hd
    exact ⟨inner, hinner, hshown.written n⟩

omit hhelpers in
theorem isShown_of_partial {name : String} {context : Option Param} {line : Nat}
    (hout : (node env below (.partialTag name context line) st).1 = .ok out)
    (hd : d ∈ nodeDescents env below st (.partialTag name context line)) :
    d.IsShown escape below out := by
  obtain ⟨source, mid, hsource, hcompiled⟩ := exists_of_bind hout
  obtain ⟨t, last, hcompile, htext⟩ := exists_of_bind hcompiled
  obtain ⟨hload, rfl⟩ : env.partials.load name = .ok source ∧ st = mid := by
    simpa [ofResult] using hsource
  simp only [nodeDescents, partialDescent?, hload, hcompile, Option.mem_toList] at hd
  obtain rfl := Option.some.inj hd
  rw [readScope_bind, within_fst] at htext
  exact ⟨out, htext, .whole⟩

/-- The text of a node shows what is rendered for it. -/
theorem isShown_of_node (n : Node) (hout : (node env below n st).1 = .ok out)
    (hd : d ∈ nodeDescents env below st n) : d.IsShown env.escape below out := by
  cases n with
  | text body => cases hd
  | raw body => cases hd
  | output call escaped =>
    cases hfind : env.helpers.find? call.name with
    | some helper => exact isShown_of_tag hhelpers rfl hfind hout hd
    | none =>
      simp only [nodeDescents, helperProgram?, hfind] at hd
      cases hd
  | inline call =>
    cases hfind : env.helpers.find? call.name with
    | some helper => exact isShown_of_tag hhelpers rfl hfind hout hd
    | none =>
      simp only [nodeDescents, helperProgram?, hfind] at hd
      cases hd
  | block call branches =>
    cases hfind : env.helpers.find? call.name with
    | some helper => exact isShown_of_tag hhelpers rfl hfind hout hd
    | none =>
      rcases block_variable below branches st hfind with ⟨hdescents, -⟩ | ⟨value, hdescents, hnode⟩
      · rw [hdescents] at hd
        cases hd
      · rw [hdescents] at hd
        rw [hnode] at hout
        exact (isShown_of_run (Helper.shows_variableBlock _ value) hout).2 d hd
  | partialTag name context line => exact isShown_of_partial hout hd

/-- The text of nodes shows the text of each of them, and what each step shows that is rendered for
them one level deeper. -/
theorem isShown_of_mem_row {inside : Descent → List Step}
    (hinside : ∀ d text, (nested env maxDepth d.body d.state).1 = .ok text →
      ∀ s ∈ inside d, s.IsShown env text)
    {body : List Node} (hout : (nodes env (nested env maxDepth) body st).1 = .ok out) {s : Step}
    (hs : s ∈ row env inside body st) : s.IsShown env out := by
  induction body generalizing st out with
  | nil => cases hs
  | cons first rest ih =>
    obtain ⟨front, mid, back, hstep, hrest, rfl⟩ := exists_of_nodes_cons hout
    have hfirst : (node env (nested env maxDepth) first st).1 = .ok front := by rw [hstep]
    rw [row, hstep, List.cons_append, List.mem_cons, List.mem_append] at hs
    rcases hs with rfl | hs | hs
    · exact ⟨front, hfirst, ShownIn.whole.append_left back⟩
    · obtain ⟨d, hd, hs⟩ := List.mem_flatMap.1 hs
      obtain ⟨middle, hmiddle, hshown⟩ := isShown_of_node hhelpers first hfirst hd
      obtain ⟨text, htext, hinner⟩ := hinside d middle hmiddle s hs
      exact ⟨text, htext, (hinner.trans hshown).append_left back⟩
    · obtain ⟨text, htext, hshown⟩ := ih hrest hs
      exact ⟨text, htext, hshown.append_right front⟩

/-- **What a render writes.** With the built-in helpers, if nodes are rendered without an error,
then so are all nodes of their trace, on whatever level: each of them is rendered in the state of
its step, and its text is shown in the text of the whole. -/
theorem isShown_of_mem_trace {levels : Nat} {body : List Node}
    (hout : (nodes env (nested env maxDepth) body st).1 = .ok out) {s : Step}
    (hs : s ∈ trace env levels body st) : s.IsShown env out := by
  induction levels generalizing body st out s with
  | zero => exact isShown_of_mem_row hhelpers (fun _ _ _ _ hs => (List.not_mem_nil hs).elim) hout hs
  | succ levels ih =>
    refine isShown_of_mem_row hhelpers (fun d text htext s hs => ?_) hout hs
    split at hs
    · next hdepth =>
      -- One level deeper the nodes of the descent are rendered as they are in the trace.
      rw [recurs_nested env d.body, deeper, if_neg (Nat.not_le_of_lt hdepth)] at htext
      exact ih htext hs
    · cases hs

end Builtin

end Render

end Stencil
