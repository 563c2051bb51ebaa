import Stencil.Proofs.Engine.Simulation
import Stencil.Proofs.Helper.Turns
import Stencil.Proofs.Render.Coupling
import Stencil.Proofs.Scope.Agreement

/-!
# Data variables matter through their mark only

The setting for data variables decides about the variables of loops, and about what a path with the
mark of data variables means. Without such a path in the trees that are rendered, both settings give
the same text or the same error, also for data with fields whose names start with the mark.

## Main definitions

* `Render.plainCoupling` - renders that have the same values in their scopes

Main statement: `Engine.renderValue_dataVariables`.
-/

namespace Stencil

/-! ### Plain paths in scopes with the same values -/

namespace Scope

variable {s s' : Scope}

theorem resolveSliced?_congr (hvalues : s'.values = s.values) {p : Path} (hp : p.IsPlain) :
    s'.resolveSliced? p = s.resolveSliced? p :=
  congrArg (Option.map (sliced p)) (resolve?_congr hvalues hp)

/-- In scopes with the same values plain paths have the same answers, and so has an argument. -/
theorem resolveParam_eq_of_values (hvalues : s'.values = s.values) {param : Param}
    (hpaths : ∀ p ∈ param.paths, p.IsPlain) : s'.resolveParam param = s.resolveParam param :=
  resolveParam_congr fun p hp => ⟨hpaths p hp, resolve?_congr hvalues (hpaths p hp)⟩

end Scope

/-! ### The coupling -/

namespace Render

/-- Two renders of the same nodes with plain paths, in scopes with the same values. -/
def plainCoupling : Coupling where
  Scopes s s' := s'.values = s.values
  Frames frame frame' := frame'.value = frame.value
  Caches cache cache' := cache' = cache
  Nodes n n' := n' = n ∧ ∀ p ∈ n.paths, p.IsPlain
  push hscope hframe := by rw [Scope.values_push, Scope.values_push, hscope, hframe]
  frame _ := rfl
  turns _ value := Helper.forall₂_turns _ _ value

namespace plainCoupling

theorem bodies_of_paths {body : List Node} (h : ∀ p ∈ nodesPaths body, p.IsPlain) :
    plainCoupling.Bodies body body :=
  List.forall₂_same.2 fun _ hn => ⟨rfl, fun p hp => h p (mem_nodesPaths_of_mem hn hp)⟩

theorem branches_of_paths {branches : List (Branch Node)}
    (h : ∀ p ∈ branchesPaths branches, p.IsPlain) : plainCoupling.Branches branches branches := by
  refine List.forall₂_same.2 fun branch hbranch => ⟨fun s s' hs => ?_, bodies_of_paths fun p hp =>
    h p (mem_branchesPaths_of_mem hbranch (.inr hp))⟩
  unfold isChosen
  cases hcondition : branch.condition with
  | none => rfl
  | some condition =>
    refine congrArg Value.isTruthy (Scope.resolveParam_eq_of_values hs fun p hp => ?_)
    refine h p (mem_branchesPaths_of_mem hbranch (.inl ?_))
    simpa [hcondition] using hp

theorem readsCall_of_paths {env : RenderEnv} {call : Call} (h : ∀ p ∈ call.paths, p.IsPlain) :
    plainCoupling.ReadsCall env call := by
  have hargument {param : Param} (hparam : param ∈ call.arguments) :
      plainCoupling.Reads (·.resolveParam param) := fun hs =>
    Scope.resolveParam_eq_of_values hs fun p hp => h p (.tail _ (List.mem_flatMap.2 ⟨param, hparam, hp⟩))
  refine ⟨fun param hparam => ?_, fun entry hentry => ?_, fun _ _ _ hs => ?_⟩
  · exact hargument (List.mem_append_left _ hparam)
  · exact hargument (List.mem_append_right _ (List.mem_map_of_mem hentry))
  · exact Scope.resolveSliced?_congr hs (h call.path (.head _))

/-- Each node gives the same in scopes with the same values, if the trees of partials have plain
paths as well. -/
theorem steps {env : RenderEnv} (hhelpers : env.helpers = Registry.builtin) :
    plainCoupling.Steps env fun l => ∀ t ∈ l.tree?, ∀ p ∈ t.paths, p.IsPlain := by
  constructor
  rintro below below' _ n st st' ⟨rfl, hpaths⟩ hst hbalanced hbalanced' hadmits hbelow
  cases n with
  | text body => exact .pure body hst
  | raw body => exact .pure body hst
  | output call escaped =>
    exact .output hhelpers hbalanced hbalanced' escaped (readsCall_of_paths hpaths) hst hbelow
  | inline call =>
    exact .inline hhelpers hbalanced hbalanced' (readsCall_of_paths hpaths) hst hbelow
  | block call branches =>
    have hcall : plainCoupling.ReadsCall env call :=
      readsCall_of_paths fun p hp => hpaths p (List.mem_append_left _ hp)
    have hbranches := branches_of_paths fun p hp => hpaths p (List.mem_append_right _ hp)
    exact .block hhelpers hbalanced hbalanced' hcall hst hbranches hbelow
  | partialTag name context line =>
    refine .partialTag hbalanced hbalanced' (fun param hparam => ?_) hst (fun source hload => ?_)
      hbelow
    · refine fun hs => Scope.resolveParam_eq_of_values hs fun p hp => hpaths p ?_
      exact List.mem_flatMap.2 ⟨param, Option.mem_toList.2 hparam, hp⟩
    · have hcache : st'.cache = st.cache := hst.cache
      rw [hcache]
      refine ⟨rfl, rfl, fun t htree => bodies_of_paths ?_⟩
      refine hadmits ⟨source.source, st.cache⟩ (by simp [nodeLookup?, hload]) t ?_
      simp [Lookup.tree?, htree, Except.toOption]

end plainCoupling

end Render

/-! ### Engines -/

namespace Engine

open Render

/-- **The setting for data variables matters through their mark only.** With the built-in helpers,
if no path in the tree of a template and of the partials that it renders has the mark of data
variables, then both settings give the same text, or fail with the same error, on all data. -/
theorem renderValue_dataVariables {e : Engine} (hhelpers : e.helpers = Registry.builtin)
    {name : String} {data : Value}
    (hpaths : ∀ l ∈ e.lookups name data, ∀ t ∈ l.tree?, ∀ p ∈ t.paths, p.IsPlain)
    (dataVariables : Bool) :
    ({ e with dataVariables := dataVariables }.renderValue name data).1 =
      (e.renderValue name data).1 := by
  cases hload : e.loader.load name with
  | error error => simp only [renderValue, hload]
  | ok source =>
    simp only [lookups, hload, List.forall_mem_cons] at hpaths
    obtain ⟨hfirst, hrest⟩ := hpaths
    cases htree : e.cache.compile source.source with
    | mk result cache =>
      rw [htree] at hrest
      have hother : { e with dataVariables := dataVariables }.loader.load name = .ok source := hload
      cases result with
      | error error =>
        rw [renderValue_eq_of_compile_error hload htree,
          renderValue_eq_of_compile_error hother htree]
      | ok t =>
        rw [renderValue_eq hload htree, renderValue_eq hother htree]
        have hbody : plainCoupling.Bodies t.nodes t.nodes :=
          plainCoupling.bodies_of_paths (hfirst t (by simp [Lookup.tree?, htree, Except.toOption]))
        have hstart : plainCoupling.States (e.start data cache)
            ({ e with dataVariables := dataVariables }.start data cache) :=
          ⟨rfl, fun _ => .none, rfl, rfl⟩
        have henv : e.renderEnv.helpers = Registry.builtin := hhelpers
        exact ((plainCoupling.steps henv).nodes hbody hstart hrest).1

/-- A loop around a partial, over data with a field that has the name of a data variable. -/
theorem renderValue_dataVariables_each :
    let e : Engine := { standard with
      loader := .table [
        ("page", "\x7b\x7b#each items\x7d\x7d\x7b\x7b> row this\x7d\x7d\x7b\x7b/each\x7d\x7d"),
        ("row", "\x7b\x7bname\x7d\x7d \x7b\x7b../index\x7d\x7d, ")] }
    let item (name : String) : Value := .map [("name", .str name), ("@index", .int 7)]
    let data : Value := .map [("items", .list [item "a", item "b"]), ("@index", .int 8)]
    ({ e with dataVariables := true }.renderValue "page" data).1 = (e.renderValue "page" data).1 ∧
      (e.renderValue "page" data).1.toOption = some "a , b , " := by
  intro e item data
  have hpaths : ∀ l ∈ e.lookups "page" data, ∀ t ∈ l.tree?, ∀ p ∈ t.paths, p.IsPlain := by
    decide +kernel
  exact ⟨renderValue_dataVariables rfl hpaths true, by decide +kernel⟩

end Engine

end Stencil
