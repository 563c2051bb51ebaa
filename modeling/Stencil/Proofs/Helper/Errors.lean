import Stencil.Helper.Builtin

/-!
# The errors of helpers

A helper fails with an error of its own, or with one that it is answered with. The built-in helpers
complain of their arguments only, but for `format_date`, which may have to write the zone of a date
without one.

## Main definitions

* `Program.FailsWith` - a course of action that adds only errors with a property to those it is
  answered with
* `Error.OfHelper` - the errors that complain of arguments

Main statements: `Helper.failsWith_builtin`, `Helper.failsWith_builtin_of_missingZone`.
-/

namespace Stencil

/-! ### Courses of action -/

/-- As long as all errors that it is answered with satisfy `P`, its own errors do. -/
inductive Program.FailsWith {α : Type} (P : Error → Prop) : Program α → Prop where
  | done {result : Except Error α} (h : Stencil.FailsWith P result) : FailsWith P (.done result)
  | ask {request : Request} {next : Except Error String → Program α}
      (h : ∀ answer, Stencil.FailsWith P answer → FailsWith P (next answer)) :
      FailsWith P (.ask request next)

namespace Program.FailsWith

variable {α β : Type} {P : Error → Prop}

theorem pure (a : α) : FailsWith P (Pure.pure a : Program α) :=
  .done (.ok a)

theorem request (r : Request) : FailsWith P (Program.request r) :=
  .ask fun _ h => .done h

theorem bind {program : Program α} {next : α → Program β} (h : program.FailsWith P)
    (hnext : ∀ a, (next a).FailsWith P) : (program >>= next).FailsWith P := by
  show (Program.bind program next).FailsWith P
  induction h with
  | @done result h =>
    cases result with
    | ok a => exact hnext a
    | error e => exact .done (.error (h e rfl))
  | ask _ ih => exact .ask fun answer hanswer => ih answer hanswer

theorem bodies (out : String) (frames : List (Option Frame)) :
    (Program.bodies out frames).FailsWith P := by
  induction frames generalizing out with
  | nil => exact .pure out
  | cons frame frames ih => exact .bind (.request (.body frame)) fun text => ih (out ++ text)

end Program.FailsWith

/-- The errors by which the built-in helpers complain of their arguments. -/
def Error.OfHelper : Error → Prop
  | .render (.missingArgument _ _) => True
  | .render (.missingName _) => True
  | .render .truncateLength => True
  | .render (.dateFormat _) => True
  | .render (.repeatCount _ _) => True
  | _ => False

namespace Helper

variable {P : Error → Prop}

/-- What a block does whose name is a variable adds no errors. -/
theorem failsWith_variableBlock (invocation : Invocation)
    (value : Value) : (variableBlock invocation value).FailsWith P := by
  unfold variableBlock
  split
  · exact .bodies "" _
  · split
    · exact .request _
    · exact .request _

/-- One of two requests, as an argument decides. -/
theorem failsWith_choice {p : Prop} [Decidable p] {x y : Request} :
    (if p then Program.request x else Program.request y).FailsWith P := by
  split
  · exact .request x
  · exact .request y

/-- A date is written, or the pattern is at fault: it cannot be read, or it names a zone that the
date does not have. -/
theorem formatDate_cases (value : Value) (format : String) :
    (∃ text, formatDate value format = .ok text) ∨
      formatDate value format = .error (.render (.dateFormat format)) ∨
      formatDate value format = .error .missingZone := by
  unfold formatDate
  split
  · exact .inr (.inl rfl)
  · split
    · exact .inl ⟨_, rfl⟩
    · split
      · exact .inr (.inr rfl)
      · exact .inl ⟨_, rfl⟩

variable (hhelper : ∀ e, e.OfHelper → P e)
include hhelper

theorem failsWith_param (call : Invocation) (i : Nat) : FailsWith P (call.param i) := by
  unfold Invocation.param
  split
  · exact .ok _
  · exact .error (hhelper _ trivial)

theorem failsWith_fragmentName (call : Invocation) : FailsWith P (fragmentName call) := by
  unfold fragmentName
  split
  · exact .ok _
  · exact .error (hhelper _ trivial)

theorem failsWith_repeatCount (value : Value) : FailsWith P (repeatCount value) := by
  unfold repeatCount
  dsimp only
  split
  · exact .error (hhelper _ trivial)
  · exact .ok _

/-- What is done with an argument; without the argument the helper fails. -/
theorem failsWith_argument_bind {call : Invocation} {i : Nat} {next : Value → Program String}
    (h : ∀ value, (next value).FailsWith P) : (argument call i >>= next).FailsWith P :=
  .bind (.done (failsWith_param hhelper call i)) h

theorem failsWith_each (call : Invocation) : (each.run call).FailsWith P := by
  refine failsWith_argument_bind hhelper fun value => ?_
  split
  · exact .request _
  · exact .bodies "" _

theorem failsWith_repeated (call : Invocation) : (repeated.run call).FailsWith P := by
  refine failsWith_argument_bind hhelper fun value => ?_
  exact .bind (.done (failsWith_repeatCount hhelper value)) fun count => .bodies "" _

theorem failsWith_onText (f : List Char → List Char) (call : Invocation) :
    ((onText f).run call).FailsWith P := by
  simp only [onText]
  split
  · exact .bind (.pure _) fun _ => .pure _
  · split
    · exact .bind (.request _) fun _ => .pure _
    · exact .bind (failsWith_argument_bind hhelper fun _ => .pure _) fun _ => .pure _

theorem failsWith_inflect (call : Invocation) : (inflect.run call).FailsWith P := by
  refine .done (.bind (failsWith_param hhelper call 0) fun count => ?_)
  refine .bind (failsWith_param hhelper call 1) fun singular => ?_
  exact .bind (failsWith_param hhelper call 2) fun plural => .ok _

theorem failsWith_defaultTo (call : Invocation) : (defaultTo.run call).FailsWith P := by
  refine .done (.bind (failsWith_param hhelper call 0) fun value => ?_)
  split
  · exact .bind (failsWith_param hhelper call 1) fun other => .ok _
  · exact .ok _

theorem failsWith_truncate (call : Invocation) : (truncate.run call).FailsWith P := by
  refine .done (.bind (failsWith_param hhelper call 0) fun value => ?_)
  refine .bind (failsWith_param hhelper call 1) fun length => ?_
  split
  · exact .error (hhelper _ trivial)
  · dsimp only
    split
    · exact .ok _
    · exact .ok _

theorem failsWith_define (call : Invocation) : (define.run call).FailsWith P :=
  .bind (.done (failsWith_fragmentName hhelper call)) fun _ => .request _

theorem failsWith_invoke (call : Invocation) : (invoke.run call).FailsWith P :=
  .bind (.done (failsWith_fragmentName hhelper call)) fun _ => .request _

/-- All built-in helpers but `format_date` complain of their arguments, and have no other errors of
their own. -/
theorem failsWith_builtin {name : String} {helper : Helper}
    (hfind : Registry.builtin.find? name = some helper) (hname : name ≠ "format_date")
    (call : Invocation) : (helper.run call).FailsWith P := by
  have hmem := Entries.mem_of_find? hfind
  simp only [Registry.builtin, List.mem_cons, List.not_mem_nil, or_false, Prod.mk.injEq] at hmem
  rcases hmem with ⟨-, rfl⟩ | ⟨-, rfl⟩ | ⟨-, rfl⟩ | ⟨-, rfl⟩ | ⟨-, rfl⟩ | ⟨-, rfl⟩ | ⟨-, rfl⟩ |
    ⟨-, rfl⟩ | ⟨-, rfl⟩ | ⟨-, rfl⟩ | ⟨-, rfl⟩ | ⟨-, rfl⟩ | ⟨rfl, -⟩ | ⟨-, rfl⟩ | ⟨-, rfl⟩ | ⟨-, rfl⟩
  · exact failsWith_argument_bind hhelper fun value => failsWith_choice
  · exact failsWith_argument_bind hhelper fun value => failsWith_choice
  · exact failsWith_argument_bind hhelper fun value => failsWith_choice
  · exact failsWith_each hhelper call
  · exact failsWith_onText hhelper _ call
  · exact failsWith_onText hhelper _ call
  · exact failsWith_onText hhelper _ call
  · exact failsWith_onText hhelper _ call
  · exact failsWith_onText hhelper _ call
  · exact failsWith_inflect hhelper call
  · exact failsWith_defaultTo hhelper call
  · exact failsWith_truncate hhelper call
  · exact absurd rfl hname
  · exact failsWith_repeated hhelper call
  · exact failsWith_define hhelper call
  · exact failsWith_invoke hhelper call

theorem failsWith_formatDate (hzone : P .missingZone) (call : Invocation) :
    (formatDateHelper.run call).FailsWith P := by
  refine .done (.bind (failsWith_param hhelper call 0) fun value => ?_)
  rcases formatDate_cases value ((call.params[1]?.map Value.text).getD defaultDateFormat) with
    ⟨text, htext⟩ | hformat | hmissing
  · rw [htext]
    exact .ok text
  · rw [hformat]
    exact .error (hhelper _ trivial)
  · rw [hmissing]
    exact .error hzone

/-- All built-in helpers complain of their arguments, or write the zone of a date without one. -/
theorem failsWith_builtin_of_missingZone (hzone : P .missingZone) {name : String} {helper : Helper}
    (hfind : Registry.builtin.find? name = some helper) (call : Invocation) :
    (helper.run call).FailsWith P := by
  by_cases hname : name = "format_date"
  · rw [hname] at hfind
    obtain rfl : formatDateHelper = helper := Option.some.inj hfind
    exact failsWith_formatDate hhelper hzone call
  · exact failsWith_builtin hhelper hfind hname call

end Helper

end Stencil
