import Stencil.Proofs.Engine.Simulation
import Stencil.Proofs.Helper.Requests
import Stencil.Proofs.Text.Entities

/-!
# Texts are escaped once

Where a template writes nothing but escaped values and texts that need no escaping, escaping the
values for HTML one by one is the same as escaping the whole text that is rendered without: every
value goes through the escape function, and none does so twice.

## Main definitions

* `Node.escapesOnce`, `Template.escapesOnce` - the trees that write escaped values only
* `Program.AsksNoFragment` - the courses of action that do not ask for a fragment

Main statement: `Engine.renderValue_escape`.
-/

namespace Stencil

/-! ### Trees that write escaped values only -/

/-- The built-in helpers whose blocks write no text of their own. -/
def blockHelpers : List String :=
  ["if", "unless", "with", "each", "repeat", "define", "invoke"]

mutual

/-- Whether a node writes nothing but escaped values, texts that need no escaping, and what is
rendered inside of it:

* output tags are escaped and do not write fragments, which are escaped already;
* opening tags without a body write fragments or variables;
* blocks call no helpers but those that write no text of their own. -/
def Node.escapesOnce (helpers : Registry) : Node → Bool
  | .text body => Text.Html.isPlain body
  | .raw body => Text.Html.isPlain body
  | .output call escaped => escaped && call.name != "invoke"
  | .inline call => call.name == "invoke" || (helpers.find? call.name).isNone
  | .block call branches =>
    (blockHelpers.contains call.name || (helpers.find? call.name).isNone) &&
      branchesEscapeOnce helpers branches
  | .partialTag _ _ _ => true

/-- Whether this holds of nodes. -/
def nodesEscapeOnce (helpers : Registry) : List Node → Bool
  | [] => true
  | n :: body => n.escapesOnce helpers && nodesEscapeOnce helpers body

/-- Whether this holds of the bodies of branches. -/
def branchesEscapeOnce (helpers : Registry) : List (Branch Node) → Bool
  | [] => true
  | ⟨_, body⟩ :: branches => nodesEscapeOnce helpers body && branchesEscapeOnce helpers branches

end

/-- Whether a tree writes escaped values only. -/
def Template.escapesOnce (helpers : Registry) (t : Template) : Bool :=
  nodesEscapeOnce helpers t.nodes

variable {helpers : Registry}

theorem nodesEscapeOnce_iff {body : List Node} :
    nodesEscapeOnce helpers body ↔ ∀ n ∈ body, n.escapesOnce helpers := by
  induction body with
  | nil => simp [nodesEscapeOnce]
  | cons n body ih => simp [nodesEscapeOnce, ih]

theorem branchesEscapeOnce_iff {branches : List (Branch Node)} :
    branchesEscapeOnce helpers branches ↔
      ∀ branch ∈ branches, ∀ n ∈ branch.body, n.escapesOnce helpers := by
  induction branches with
  | nil => simp [branchesEscapeOnce]
  | cons branch branches ih => simp [branchesEscapeOnce, ih, nodesEscapeOnce_iff]

/-! ### The built-in helpers -/

namespace Program

variable {α β : Type} {f g : String → String} {isBlock : Bool}

/-- A course of action that does not ask for a fragment. -/
def AsksNoFragment : Program α → Prop
  | .done _ => True
  | .ask request next => (∀ name, request ≠ .invoke name) ∧ ∀ answer, AsksNoFragment (next answer)

theorem Asks.asksNoFragment {program : Program α}
    (h : program.Asks fun request => ∀ name, request ≠ .invoke name) : program.AsksNoFragment := by
  induction h with
  | done result => trivial
  | ask hrequest herror _ ih =>
    refine ⟨hrequest, fun answer => ?_⟩
    cases answer with
    | error e =>
      rw [herror e]
      trivial
    | ok text => exact ih text

/-- Without a body and without fragments, a helper gets empty texts only, and these are the same
before and after a change. -/
theorem AsksNoFragment.alike (hf : f "" = "") {program : Program String}
    (h : program.AsksNoFragment) : Alike f id false program program := by
  induction program with
  | done result =>
    have hdone : Alike f id false (.done result) (.done (result.map id)) := .done result
    rwa [Except.map_id, id_eq] at hdone
  | ask request next ih =>
    refine .ask fun answer hanswer => ?_
    have hsame : answer.map f = answer := by
      cases answer with
      | error e => rfl
      | ok text =>
        obtain rfl := hanswer rfl h.1 text rfl
        exact congrArg Except.ok hf
    rw [hsame]
    exact ih answer (h.2 answer)

theorem Alike.bind {next next' : α → Program String} (result : Except Error α)
    (h : ∀ a, Alike f g isBlock (next a) (next' a)) :
    Alike f g isBlock (.done result >>= next) (.done result >>= next') := by
  cases result with
  | error e => exact .done (g := g) (.error e)
  | ok a => exact h a

theorem Alike.request (r : Request) :
    Alike f f isBlock (Program.request r) (Program.request r) :=
  .ask fun answer _ => .done answer

theorem Alike.bodies (hf : ∀ front back, f (front ++ back) = f front ++ f back) (out : String)
    (frames : List (Option Frame)) :
    Alike f f isBlock (Program.bodies out frames) (Program.bodies (f out) frames) := by
  induction frames generalizing out with
  | nil => exact .done (.ok out)
  | cons frame frames ih =>
    refine .ask fun answer _ => ?_
    -- The texts so far and the next one are changed together.
    cases answer with
    | error e => exact .done (.error e)
    | ok text =>
      have hlater := ih (out ++ text)
      rwa [hf] at hlater

theorem Alike.bodies_empty (hempty : f "" = "")
    (happend : ∀ front back, f (front ++ back) = f front ++ f back)
    (frames : List (Option Frame)) :
    Alike f f isBlock (Program.bodies "" frames) (Program.bodies "" frames) := by
  have hbodies : Alike f f isBlock (Program.bodies "" frames) (Program.bodies (f "") frames) :=
    .bodies happend "" frames
  rwa [hempty] at hbodies

end Program

namespace Helper

variable {f : String → String} {isBlock : Bool}

theorem alike_iterate (hempty : f "" = "")
    (happend : ∀ front back, f (front ++ back) = f front ++ f back) (invocation : Invocation)
    (value : Value) :
    Program.Alike f f isBlock (iterate invocation value) (iterate invocation value) := by
  exact .bodies_empty hempty happend (turns invocation.scope.dataVariables value)

theorem alike_variableBlock (hempty : f "" = "")
    (happend : ∀ front back, f (front ++ back) = f front ++ f back) (invocation : Invocation)
    (value : Value) :
    Program.Alike f f isBlock (variableBlock invocation value)
      (variableBlock invocation value) := by
  unfold variableBlock
  split
  · exact alike_iterate hempty happend invocation _
  · split
    · exact .request _
    · exact .request _

theorem alike_invoke (invocation : Invocation) :
    Program.Alike f f isBlock (invoke.run invocation) (invoke.run invocation) :=
  .bind _ fun _ => .request _

/-- The helpers whose blocks write no text of their own put the texts of bodies together. -/
theorem alike_of_mem_blockHelpers (hempty : f "" = "")
    (happend : ∀ front back, f (front ++ back) = f front ++ f back) {name : String}
    {helper : Helper} (hname : name ∈ blockHelpers)
    (hhelper : Registry.builtin.find? name = some helper) (invocation : Invocation) :
    Program.Alike f f isBlock (helper.run invocation) (helper.run invocation) := by
  have hchoice (p : Prop) [Decidable p] (x y : Request) :
      Program.Alike f f isBlock (if p then Program.request x else Program.request y)
        (if p then Program.request x else Program.request y) := by
    split
    · exact .request x
    · exact .request y
  simp only [blockHelpers, List.mem_cons, List.not_mem_nil, or_false] at hname
  rcases hname with rfl | rfl | rfl | rfl | rfl | rfl | rfl
  · obtain rfl : ifTrue = helper := Option.some.inj hhelper
    exact .bind _ fun value => hchoice _ _ _
  · obtain rfl : unlessTrue = helper := Option.some.inj hhelper
    exact .bind _ fun value => hchoice _ _ _
  · obtain rfl : withValue = helper := Option.some.inj hhelper
    exact .bind _ fun value => hchoice _ _ _
  · obtain rfl : each = helper := Option.some.inj hhelper
    refine .bind _ fun value => ?_
    split
    · exact .request _
    · exact alike_iterate hempty happend invocation value
  · obtain rfl : repeated = helper := Option.some.inj hhelper
    refine .bind _ fun value => .bind _ fun count => ?_
    exact .bodies_empty hempty happend (List.replicate count none)
  · obtain rfl : define = helper := Option.some.inj hhelper
    exact .bind _ fun name => .request _
  · obtain rfl : invoke = helper := Option.some.inj hhelper
    exact alike_invoke invocation

theorem asksNoFragment_of_builtin {name : String} {helper : Helper} (hname : name ≠ "invoke")
    (hhelper : Registry.builtin.find? name = some helper) (invocation : Invocation) :
    (helper.run invocation).AsksNoFragment :=
  (asks_builtin (fun _ _ => Request.noConfusion) (fun _ _ => Request.noConfusion)
    (fun _ _ _ => Request.noConfusion) (fun h => absurd h hname) hhelper invocation).asksNoFragment

end Helper

/-! ### Engines -/

namespace Engine

open Text

/-- Escaping for HTML, seen from rendering without it. -/
def escaping (e : Engine) (hhelpers : e.helpers = Registry.builtin) :
    Render.Simulation { e with escape := id }.renderEnv
      { e with escape := Html.escape }.renderEnv where
  text := Html.escape
  cache := id
  Valid _ := True
  Allows n := n.escapesOnce Registry.builtin
  Admits l := ∀ t ∈ l.tree?, t.escapesOnce Registry.builtin
  helpers := rfl
  partials := rfl
  text_empty := Html.escape_empty
  text_append := Html.escape_append
  escape _ := rfl
  verbatim _ h := by
    rcases h with h | h
    · exact Html.escape_of_isPlain h
    · exact Html.escape_of_isPlain h
  unescaped _ h := by simp [Node.escapesOnce] at h
  output call escaped helper h hhelper invocation := by
    have hname : escaped = true ∧ call.name ≠ "invoke" := by simpa [Node.escapesOnce] using h
    have hbuiltin : Registry.builtin.find? call.name = some helper := hhelpers ▸ hhelper
    exact (Helper.asksNoFragment_of_builtin hname.2 hbuiltin invocation).alike Html.escape_empty
  inline call helper h hhelper invocation := by
    have hbuiltin : Registry.builtin.find? call.name = some helper := hhelpers ▸ hhelper
    have hname : call.name = "invoke" := by simpa [Node.escapesOnce, hbuiltin] using h
    rw [hname] at hbuiltin
    obtain rfl : Helper.invoke = helper := Option.some.inj hbuiltin
    exact Helper.alike_invoke invocation
  block call branches helper h hhelper invocation := by
    have hbuiltin : Registry.builtin.find? call.name = some helper := hhelpers ▸ hhelper
    have hname : call.name ∈ blockHelpers ∧ branchesEscapeOnce Registry.builtin branches := by
      simpa [Node.escapesOnce, hbuiltin] using h
    exact Helper.alike_of_mem_blockHelpers Html.escape_empty Html.escape_append hname.1 hbuiltin
      invocation
  variableBlock := Helper.alike_variableBlock Html.escape_empty Html.escape_append
  bodies call branches h := by
    rw [Node.escapesOnce, Bool.and_eq_true] at h
    exact branchesEscapeOnce_iff.1 h.2
  compile l h _ := by
    refine ⟨rfl, trivial, fun t ht => ?_⟩
    have htree : t ∈ l.tree? := by simp [Render.Lookup.tree?, ht, Except.toOption]
    exact nodesEscapeOnce_iff.1 (h t htree)

/-- Where a template and all partials that it renders write escaped values only, escaping for HTML
gives the text of a render without escaping, escaped as a whole, and fails with the same error
where that fails. -/
theorem renderValue_escape {e : Engine} (hhelpers : e.helpers = Registry.builtin) {name : String}
    {data : Value}
    (hescapes : ∀ l ∈ { e with escape := id }.lookups name data,
      ∀ t ∈ l.tree?, t.escapesOnce Registry.builtin) :
    ({ e with escape := Html.escape }.renderValue name data).1 =
      ({ e with escape := id }.renderValue name data).1.map Html.escape :=
  (renderValue_simulation (e.escaping hhelpers) rfl rfl rfl trivial hescapes).1

/-- A loop around a partial, over values with markup. -/
theorem renderValue_escape_each :
    let e : Engine := { standard with
      loader := .table [
        ("page", "\x7b\x7b#each items\x7d\x7d\x7b\x7b> row\x7d\x7d\x7b\x7b/each\x7d\x7d"),
        ("row", "\x7b\x7bthis\x7d\x7d, ")] }
    let data : Value := .map [("items", .list [.str "<b>", .str "a & b"])]
    let plain := { e with escape := id }.renderValue "page" data
    let escaped := { e with escape := Html.escape }.renderValue "page" data
    escaped.1 = plain.1.map Html.escape ∧ plain.1.toOption = some "<b>, a & b, " := by
  intro e data plain escaped
  have hescapes : ∀ l ∈ { e with escape := id }.lookups "page" data,
      ∀ t ∈ l.tree?, t.escapesOnce Registry.builtin := by decide +kernel
  exact ⟨renderValue_escape rfl hescapes, by decide +kernel⟩

end Engine

end Stencil
