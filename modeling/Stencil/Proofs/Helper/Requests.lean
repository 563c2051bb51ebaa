import Stencil.Helper.Builtin

/-!
# The requests of helpers

The built-in helpers put requests one after another and end with the first one that fails. Only
`define` stores fragments, and only `invoke` renders them.

## Main definitions

* `Program.Asks` - a course of action whose requests have a property and that ends with an error
  that it is answered with
* `Helper.branchHelpers` - the helpers that ask for branches whether their tags have any or not

Main statements: `Helper.asks_builtin_of_call`, `Helper.asks_builtin`.
-/

namespace Stencil

/-! ### Courses of action -/

/-- All requests satisfy `Q`, whatever the answers are, and a request that fails is the last one:
its error is the result. -/
inductive Program.Asks {α : Type} (Q : Request → Prop) : Program α → Prop where
  | done (result : Except Error α) : Asks Q (.done result)
  | ask {request : Request} {next : Except Error String → Program α} (hrequest : Q request)
      (herror : ∀ e, next (.error e) = .done (.error e))
      (htext : ∀ text, Asks Q (next (.ok text))) :
      Asks Q (.ask request next)

namespace Program.Asks

variable {α β : Type} {Q : Request → Prop}

theorem request {r : Request} (h : Q r) : (Program.request r).Asks Q :=
  .ask h (fun _ => rfl) fun text => .done (.ok text)

theorem bind {program : Program α} {next : α → Program β} (h : program.Asks Q)
    (hnext : ∀ a, (next a).Asks Q) : (program >>= next).Asks Q := by
  show (Program.bind program next).Asks Q
  induction h with
  | done result =>
    cases result with
    | ok a => exact hnext a
    | error e => exact .done (.error e)
  | ask hrequest herror _ ih =>
    refine .ask hrequest (fun e => ?_) ih
    rw [herror e]
    rfl

/-- What is done with a result that is known already. -/
theorem bind_done (result : Except Error α) {next : α → Program β}
    (hnext : ∀ a, (next a).Asks Q) : (Program.done result >>= next).Asks Q :=
  .bind (.done result) hnext

theorem bodies (out : String) {frames : List (Option Frame)}
    (hbody : ∀ frame ∈ frames, Q (.body frame)) : (Program.bodies out frames).Asks Q := by
  induction frames generalizing out with
  | nil => exact .done (.ok out)
  | cons frame frames ih =>
    obtain ⟨hfirst, hlater⟩ := List.forall_mem_cons.1 hbody
    exact .bind (.request hfirst) fun text => ih (out ++ text) hlater

/-- One of two requests, as an argument decides. -/
theorem choice {p : Prop} [Decidable p] {x y : Request} (hx : Q x) (hy : Q y) :
    (if p then Program.request x else Program.request y).Asks Q := by
  split
  · exact .request hx
  · exact .request hy

end Program.Asks

/-! ### The built-in helpers -/

namespace Helper

variable {Q : Request → Prop}

theorem asks_onText {call : Invocation} (hbody : call.isBlock = true → Q (.body none))
    (f : List Char → List Char) : ((onText f).run call).Asks Q := by
  obtain ⟨name, params, hash, rawParams, isBlock, scope⟩ := call
  cases params with
  | cons value values => exact .done _
  | nil =>
    cases isBlock with
    | true => exact .bind (.request (hbody rfl)) fun text => .done _
    | false => exact .done _

/-- A block whose name is a variable asks for its branches. -/
theorem asks_variableBlock (hbody : ∀ frame, Q (.body frame))
    (hinverse : ∀ frame, Q (.inverse frame)) (call : Invocation) (value : Value) :
    (variableBlock call value).Asks Q := by
  unfold variableBlock
  split
  · exact .bodies "" fun frame _ => hbody frame
  · exact .choice (hbody _) (hinverse none)

/-- The helpers that ask for branches whether their tags have any or not. -/
def branchHelpers : List String :=
  ["if", "unless", "with", "each", "repeat"]

/-- Where a tag has no body, only some of the built-in helpers ask for branches. They ask for them
in the frame that the tag stands in, but for `with` and `each`, which enter frames. Only `define`
and `invoke` ask for fragments. -/
theorem asks_builtin_of_call {name : String} {call : Invocation}
    (hbranches : name ∈ branchHelpers ∨ call.isBlock = true → Q (.body none) ∧ Q (.inverse none))
    (hframe : name = "with" ∨ name = "each" → ∀ frame, Q (.body frame))
    (hdefine : name = "define" → ∀ fragment, Q (.define fragment))
    (hinvoke : name = "invoke" → ∀ fragment, Q (.invoke fragment)) {helper : Helper}
    (hfind : Registry.builtin.find? name = some helper) : (helper.run call).Asks Q := by
  have hmem := Entries.mem_of_find? hfind
  have hasBranches {other : String} (hname : name = other) (h : other ∈ branchHelpers) :
      Q (.body none) ∧ Q (.inverse none) := hbranches (.inl (hname ▸ h))
  have honText (f : List Char → List Char) : ((onText f).run call).Asks Q :=
    asks_onText (fun hblock => (hbranches (.inr hblock)).1) f
  simp only [Registry.builtin, List.mem_cons, List.not_mem_nil, or_false, Prod.mk.injEq] at hmem
  rcases hmem with ⟨hif, rfl⟩ | ⟨hunless, rfl⟩ | ⟨hwith, rfl⟩ | ⟨heach, rfl⟩ | ⟨-, rfl⟩ | ⟨-, rfl⟩ |
    ⟨-, rfl⟩ | ⟨-, rfl⟩ | ⟨-, rfl⟩ | ⟨-, rfl⟩ | ⟨-, rfl⟩ | ⟨-, rfl⟩ | ⟨-, rfl⟩ | ⟨hrepeat, rfl⟩ |
    ⟨hname, rfl⟩ | ⟨hname, rfl⟩
  · obtain ⟨hbody, hinverse⟩ := hasBranches hif (by decide)
    exact .bind_done _ fun value => .choice hbody hinverse
  · obtain ⟨hbody, hinverse⟩ := hasBranches hunless (by decide)
    exact .bind_done _ fun value => .choice hinverse hbody
  · obtain ⟨-, hinverse⟩ := hasBranches hwith (by decide)
    exact .bind_done _ fun value => .choice (hframe (.inl hwith) _) hinverse
  · obtain ⟨-, hinverse⟩ := hasBranches heach (by decide)
    refine .bind_done _ fun value => ?_
    split
    · exact .request hinverse
    · exact .bodies "" fun frame _ => hframe (.inr heach) frame
  · exact honText _
  · exact honText _
  · exact honText _
  · exact honText _
  · exact honText _
  · exact .done _
  · exact .done _
  · exact .done _
  · exact .done _
  · obtain ⟨hbody, -⟩ := hasBranches hrepeat (by decide)
    refine .bind_done _ fun value => .bind_done _ fun count => .bodies "" fun frame hmem => ?_
    obtain rfl := List.eq_of_mem_replicate hmem
    exact hbody
  · exact .bind_done _ fun fragment => .request (hdefine hname fragment)
  · exact .bind_done _ fun fragment => .request (hinvoke hname fragment)

/-- The requests of the built-in helpers, whether a tag has a body or not. -/
theorem asks_builtin_of_name {name : String} (hbody : Q (.body none)) (hinverse : Q (.inverse none))
    (hframe : name = "with" ∨ name = "each" → ∀ frame, Q (.body frame))
    (hdefine : name = "define" → ∀ fragment, Q (.define fragment))
    (hinvoke : name = "invoke" → ∀ fragment, Q (.invoke fragment)) {helper : Helper}
    (hfind : Registry.builtin.find? name = some helper) (call : Invocation) :
    (helper.run call).Asks Q :=
  asks_builtin_of_call (fun _ => ⟨hbody, hinverse⟩) hframe hdefine hinvoke hfind

/-- The requests of the built-in helpers, whatever frames they enter. -/
theorem asks_builtin {name : String} (hbody : ∀ frame, Q (.body frame))
    (hinverse : ∀ frame, Q (.inverse frame))
    (hdefine : name = "define" → ∀ fragment, Q (.define fragment))
    (hinvoke : name = "invoke" → ∀ fragment, Q (.invoke fragment)) {helper : Helper}
    (hfind : Registry.builtin.find? name = some helper) (call : Invocation) :
    (helper.run call).Asks Q :=
  asks_builtin_of_name (hbody none) (hinverse none) (fun _ => hbody) hdefine hinvoke hfind call

end Helper

end Stencil
