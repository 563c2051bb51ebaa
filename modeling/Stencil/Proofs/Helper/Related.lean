import Mathlib.Data.List.Forall2
import Stencil.Helper.Builtin

/-!
# Helpers in related scopes

What a helper does depends on the scope in one way only: the frames of loops have variables that
depend on whether data variables are enabled. Called with the same arguments in two scopes, the
built-in helpers ask for the same, in frames that are related as those of loops are.

## Main definitions

* `Request.Related`, `Program.Related` - the same requests, in related frames

Main statements: `Helper.related_builtin`, `Helper.run_of_setting`.
-/

namespace Stencil

/-! ### Courses of action -/

/-- The same request, in a related frame if a frame is entered. -/
inductive Request.Related (R : Frame → Frame → Prop) : Request → Request → Prop where
  | body {frame frame' : Option Frame} (h : Option.Rel R frame frame') :
      Related R (.body frame) (.body frame')
  | inverse {frame frame' : Option Frame} (h : Option.Rel R frame frame') :
      Related R (.inverse frame) (.inverse frame')
  | define (name : String) : Related R (.define name) (.define name)
  | invoke (name : String) : Related R (.invoke name) (.invoke name)

/-- Two courses of action with related requests that go on in the same way for the same answers, to
the same results. -/
inductive Program.Related {α : Type} (R : Frame → Frame → Prop) :
    Program α → Program α → Prop where
  | done (result : Except Error α) : Related R (.done result) (.done result)
  | ask {request request' : Request} {next next' : Except Error String → Program α}
      (hrequest : Request.Related R request request')
      (hnext : ∀ answer, Related R (next answer) (next' answer)) :
      Related R (.ask request next) (.ask request' next')

namespace Program.Related

variable {α β : Type} {R : Frame → Frame → Prop}

theorem request {r r' : Request} (h : Request.Related R r r') :
    Related R (Program.request r) (Program.request r') :=
  .ask h fun answer => .done answer

theorem bind {program program' : Program α} {next next' : α → Program β}
    (h : Related R program program') (hnext : ∀ a, Related R (next a) (next' a)) :
    Related R (program >>= next) (program' >>= next') := by
  show Related R (Program.bind program next) (Program.bind program' next')
  induction h with
  | done result =>
    cases result with
    | ok a => exact hnext a
    | error e => exact .done (.error e)
  | ask hrequest _ ih => exact .ask hrequest ih

/-- The bodies of two loops, turn by turn. -/
theorem bodies (out : String) {frames frames' : List (Option Frame)}
    (h : List.Forall₂ (Option.Rel R) frames frames') :
    Related R (Program.bodies out frames) (Program.bodies out frames') := by
  induction h generalizing out with
  | nil => exact .done (.ok out)
  | cons hframe _ ih => exact .bind (.request (.body hframe)) fun text => ih (out ++ text)

end Program.Related

theorem Request.Related.eq {request request' : Request} (h : Request.Related Eq request request') :
    request' = request := by
  cases h with
  | body hframe =>
    cases hframe with
    | none => rfl
    | some hframe => rw [hframe]
  | inverse hframe =>
    cases hframe with
    | none => rfl
    | some hframe => rw [hframe]
  | define name => rfl
  | invoke name => rfl

/-- The same requests in the same frames are the same course of action. -/
theorem Program.Related.eq {α : Type} {program program' : Program α}
    (h : Program.Related Eq program program') : program' = program := by
  induction h with
  | done result => rfl
  | ask hrequest _ ih => rw [hrequest.eq, funext ih]

/-- In two scopes with the same values for its arguments a tag hands the same to its helper, but
for the scope. -/
theorem Call.invocation_congr {call : Call} {s s' : Scope}
    (hparams : ∀ param ∈ call.params, s'.resolveParam param = s.resolveParam param)
    (hhash : ∀ entry ∈ call.hash, s'.resolveParam entry.2 = s.resolveParam entry.2)
    (isBlock : Bool) :
    call.invocation isBlock s' = { call.invocation isBlock s with scope := s' } := by
  have hvalues : call.params.map s'.resolveParam = call.params.map s.resolveParam :=
    List.map_congr_left hparams
  have hentries : (call.invocation isBlock s').hash = (call.invocation isBlock s).hash :=
    congrArg Entries.ofList (List.map_congr_left fun entry hentry =>
      congrArg (Prod.mk entry.1) (hhash entry hentry))
  simp only [Call.invocation] at hentries
  simp only [Call.invocation, hvalues, hentries]

/-! ### The built-in helpers -/

namespace Helper

variable {R : Frame → Frame → Prop} {call : Invocation} {scope : Scope}

theorem related_choice {p : Prop} [Decidable p] {x x' y y' : Request}
    (hx : Request.Related R x x') (hy : Request.Related R y y') :
    Program.Related R (if p then Program.request x else Program.request y)
      (if p then Program.request x' else Program.request y') := by
  by_cases h : p
  · rw [if_pos h, if_pos h]
    exact .request hx
  · rw [if_neg h, if_neg h]
    exact .request hy

theorem related_onText (f : List Char → List Char) :
    Program.Related R ((onText f).run call) ((onText f).run { call with scope := scope }) := by
  obtain ⟨name, params, hash, rawParams, isBlock, inner⟩ := call
  cases params with
  | cons value values => exact .done _
  | nil =>
    cases isBlock with
    | true => exact .bind (.request (.body .none)) fun text => .done _
    | false => exact .done _

section Scopes

variable (call)

variable (hframe : ∀ value, R ⟨value, none⟩ ⟨value, none⟩)
  (hturns : ∀ value, List.Forall₂ (Option.Rel R) (turns call.scope.dataVariables value)
    (turns scope.dataVariables value))

include hframe hturns

/-- A block whose name is a variable asks for the same in two scopes. -/
theorem related_variableBlock (value : Value) :
    Program.Related R (variableBlock call value)
      (variableBlock { call with scope := scope } value) := by
  unfold variableBlock
  split
  · exact .bodies "" (hturns _)
  · exact related_choice (.body (.some (hframe value))) (.inverse .none)

/-- The built-in helpers ask for the same in two scopes, given the same arguments. -/
theorem related_builtin {name : String} {helper : Helper}
    (hfind : Registry.builtin.find? name = some helper) :
    Program.Related R (helper.run call) (helper.run { call with scope := scope }) := by
  have hmem := Entries.mem_of_find? hfind
  simp only [Registry.builtin, List.mem_cons, List.not_mem_nil, or_false, Prod.mk.injEq] at hmem
  rcases hmem with ⟨-, rfl⟩ | ⟨-, rfl⟩ | ⟨-, rfl⟩ | ⟨-, rfl⟩ | ⟨-, rfl⟩ | ⟨-, rfl⟩ | ⟨-, rfl⟩ |
    ⟨-, rfl⟩ | ⟨-, rfl⟩ | ⟨-, rfl⟩ | ⟨-, rfl⟩ | ⟨-, rfl⟩ | ⟨-, rfl⟩ | ⟨-, rfl⟩ | ⟨-, rfl⟩ | ⟨-, rfl⟩
  · exact .bind (.done _) fun value => related_choice (.body .none) (.inverse .none)
  · exact .bind (.done _) fun value => related_choice (.inverse .none) (.body .none)
  · refine .bind (.done _) fun value => ?_
    exact related_choice (.body (.some (hframe value))) (.inverse .none)
  · refine .bind (.done _) fun value => ?_
    split
    · exact .request (.inverse .none)
    · exact .bodies "" (hturns value)
  · exact related_onText _
  · exact related_onText _
  · exact related_onText _
  · exact related_onText _
  · exact related_onText _
  · exact .done _
  · exact .done _
  · exact .done _
  · exact .done _
  · refine .bind (.done _) fun value => .bind (.done _) fun count => .bodies "" ?_
    refine List.forall₂_same.2 fun frame hmem => ?_
    obtain rfl := List.eq_of_mem_replicate hmem
    exact .none
  · exact .bind (.done _) fun name => .request (.define name)
  · exact .bind (.done _) fun name => .request (.invoke name)

end Scopes

section Setting

variable (hsetting : scope.dataVariables = call.scope.dataVariables)
include hsetting

theorem forall₂_turns_of_setting (value : Value) :
    List.Forall₂ (Option.Rel Eq) (turns call.scope.dataVariables value)
      (turns scope.dataVariables value) := by
  rw [hsetting]
  refine List.forall₂_same.2 fun turn _ => ?_
  cases turn with
  | none => exact .none
  | some frame => exact .some rfl

/-- The setting for data variables is all that a block for a variable takes from the scope. -/
theorem variableBlock_of_setting (value : Value) :
    variableBlock { call with scope := scope } value = variableBlock call value :=
  (related_variableBlock call (fun _ => rfl) (forall₂_turns_of_setting hsetting) value).eq

/-- The setting for data variables is all that a built-in helper takes from the scope. -/
theorem run_of_setting {name : String} {helper : Helper}
    (hfind : Registry.builtin.find? name = some helper) :
    helper.run { call with scope := scope } = helper.run call :=
  (related_builtin call (fun _ => rfl) (forall₂_turns_of_setting hsetting) hfind).eq

end Setting

end Helper

end Stencil
