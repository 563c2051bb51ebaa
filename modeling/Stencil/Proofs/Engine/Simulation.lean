import Stencil.Engine
import Stencil.Proofs.Render.Simulation

/-!
# Two engines side by side

What is shown of two renders that go the same way is carried over to engines.

## Main definitions

* `Engine.start` - the state in which an engine starts a render
* `Engine.lookups` - the texts whose trees an engine asks for when it renders a template
* `Engine.renderValue_simulation` - engines whose renders go the same way
-/

namespace Stencil.Engine

open Render

/-- The state in which a render starts, given the cache. -/
def start (e : Engine) (data : Value) (cache : Cache) : RenderState :=
  ⟨Scope.ofRoot data e.dataVariables, [], 0, cache⟩

/-- The texts whose trees an engine asks for when it renders a template by its name: the text of the
template, and those of the partials. -/
def lookups (e : Engine) (name : String) (data : Value) : List Lookup :=
  match e.loader.load name with
  | .error _ => []
  | .ok source =>
    ⟨source.source, e.cache⟩ ::
      match e.cache.compile source.source with
      | (.error _, _) => []
      | (.ok t, cache) => Render.lookups e.renderEnv maxDepth t.nodes (e.start data cache)

/-- What an engine does for a template that is found and has a tree. -/
theorem renderValue_eq {e : Engine} {name : String} {data : Value} {source : TemplateSource}
    {t : Template} {cache : Cache} (hload : e.loader.load name = .ok source)
    (htree : e.cache.compile source.source = (.ok t, cache)) :
    e.renderValue name data =
      ((Render.template e.renderEnv t (e.start data cache)).1,
        { e with cache := (Render.template e.renderEnv t (e.start data cache)).2.cache }) := by
  simp only [renderValue, hload, compile, htree]
  rfl

theorem renderValue_eq_of_compile_error {e : Engine} {name : String} {data : Value}
    {source : TemplateSource} {error : Error} {cache : Cache}
    (hload : e.loader.load name = .ok source)
    (htree : e.cache.compile source.source = (.error error, cache)) :
    e.renderValue name data = (.error error, { e with cache := cache }) := by
  simp only [renderValue, hload, compile, htree]

/-- If the environments of two engines are tied to each other and all lookups of the first one are
admitted, then the second one gives the same text or error, changed as the simulation says. -/
theorem renderValue_simulation {e e' : Engine} (s : Simulation e.renderEnv e'.renderEnv)
    (hloader : e'.loader = e.loader) (hdataVariables : e'.dataVariables = e.dataVariables)
    (hcache : e'.cache = s.cache e.cache) (hvalid : s.Valid e.cache) {name : String} {data : Value}
    (hadmits : ∀ l ∈ e.lookups name data, s.Admits l) :
    (e'.renderValue name data).1 = (e.renderValue name data).1.map s.text ∧
      (e'.renderValue name data).2.cache = s.cache (e.renderValue name data).2.cache ∧
      s.Valid (e.renderValue name data).2.cache := by
  cases hload : e.loader.load name with
  | error error =>
    have hload' : e'.loader.load name = .error error := by rw [hloader, hload]
    simp only [renderValue, hload, hload']
    exact ⟨rfl, hcache, hvalid⟩
  | ok source =>
    have hload' : e'.loader.load name = .ok source := by rw [hloader, hload]
    simp only [lookups, hload, List.forall_mem_cons] at hadmits
    obtain ⟨hfirst, hrest⟩ := hadmits
    obtain ⟨hsame, hvalid', hallows⟩ := s.compile _ hfirst hvalid
    cases htree : e.cache.compile source.source with
    | mk result cache =>
      rw [htree] at hsame hvalid' hallows hrest
      rw [← hcache] at hsame
      cases result with
      | error error =>
        rw [renderValue_eq_of_compile_error hload htree,
          renderValue_eq_of_compile_error hload' hsame]
        exact ⟨rfl, rfl, hvalid'⟩
      | ok t =>
        have hstart : s.Keeps (e.start data cache) := ⟨hvalid', fun _ _ h => nomatch h⟩
        have hstart' : e'.start data (s.cache cache) = s.state (e.start data cache) := by
          simp only [start, Simulation.state, hdataVariables]
        obtain ⟨hstep, hkeeps⟩ : s.Sees s.text (Render.template e.renderEnv t)
            (Render.template e'.renderEnv t) (e.start data cache) :=
          s.sees_nodes (hallows t rfl) hstart hrest
        rw [renderValue_eq hload htree, renderValue_eq hload' hsame, hstart', hstep]
        exact ⟨rfl, rfl, hkeeps.cache⟩

end Stencil.Engine
