import Stencil.Proofs.Cache.Transparent
import Stencil.Proofs.Engine.Simulation

/-!
# Sessions

Engines are used one after another while templates, partials and helpers change, and all of them
use the same cache. If the cache is transparent for the texts that are used, each answer is that
of an engine without a cache.

## Main definitions

* `Session` - engines that share their loaders, their helpers and their cache
* `Operation`, `Session.step`, `Session.after` - what can be done, and what comes of it
* `Session.sources` - the texts whose trees are asked for on the way
* `Session.uncached` - the same engines without a cache

Main statements: `Session.step_uncached`, `Session.valid_after`.
-/

namespace Stencil

/-! ### Engines without a cache -/

/-- What is asked of an engine. -/
inductive Use where
  | render (name : String) (data : Datum)
  | renderValue (name : String) (data : Value)
  | compile (source : String)

/-- What is answered: a text or a tree or an error, whether something was there, or nothing. -/
inductive Answer where
  | text (result : Except Error String)
  | tree (result : Except Error Template)
  | found (isFound : Bool)
  | nothing

/-- The text of an answer, if it is one. -/
def Answer.text? : Answer → Option String
  | .text (.ok rendered) => some rendered
  | _ => none

namespace Engine

/-- What an engine answers, and the engine afterwards. -/
def use (e : Engine) : Use → Answer × Engine
  | .render name data =>
    let (result, e) := e.render name data
    (.text result, e)
  | .renderValue name data =>
    let (result, e) := e.renderValue name data
    (.text result, e)
  | .compile source =>
    let (result, e) := e.compile source
    (.tree result, e)

/-- The texts whose trees are asked for. -/
def useLookups (e : Engine) : Use → List Render.Lookup
  | .render name data =>
    match data.toValue with
    | .error _ => []
    | .ok value => e.lookups name value
  | .renderValue name data => e.lookups name data
  | .compile source => [⟨source, e.cache⟩]

/-- An engine without its cache. -/
def uncached (e : Engine) : Engine :=
  { e with cache := .none }

variable {sources : List String} {Valid : Cache → Prop}

/-- Rendering without a cache, seen from rendering with one that is transparent. -/
def uncaching (e : Engine) (htransparent : Cache.Transparent sources Valid) :
    Render.Simulation e.renderEnv e.uncached.renderEnv where
  text := id
  cache _ := .none
  Valid := Valid
  Allows _ := True
  Admits l := l.source ∈ sources
  helpers := rfl
  partials := rfl
  text_empty := rfl
  text_append _ _ := rfl
  escape _ := rfl
  verbatim _ _ := rfl
  unescaped _ _ _ := rfl
  output _ _ _ _ _ _ := .refl _
  inline _ _ _ _ _ := .refl _
  block _ _ _ _ _ _ := .refl _
  variableBlock _ _ := .refl _
  bodies _ _ _ _ _ _ _ := trivial
  compile l hsource hvalid := by
    obtain ⟨hresult, hvalid'⟩ := htransparent.compile l.cache l.source hsource hvalid
    exact ⟨by rw [hresult]; rfl, hvalid', fun _ _ _ _ => trivial⟩

theorem renderValue_uncached {e : Engine} (htransparent : Cache.Transparent sources Valid)
    (hvalid : Valid e.cache) {name : String} {data : Value}
    (hsources : ∀ l ∈ e.lookups name data, l.source ∈ sources) :
    (e.renderValue name data).1 = (e.uncached.renderValue name data).1 ∧
      Valid (e.renderValue name data).2.cache := by
  obtain ⟨hresult, -, hvalid'⟩ :=
    renderValue_simulation (e.uncaching htransparent) rfl rfl rfl hvalid hsources
  rw [hresult]
  exact ⟨(congrFun Except.map_id _).symm, hvalid'⟩

theorem use_uncached {e : Engine} (htransparent : Cache.Transparent sources Valid)
    (hvalid : Valid e.cache) (u : Use) (hsources : ∀ l ∈ e.useLookups u, l.source ∈ sources) :
    (e.use u).1 = (e.uncached.use u).1 ∧ Valid (e.use u).2.cache := by
  cases u with
  | render name data =>
    simp only [useLookups] at hsources
    simp only [use, render]
    cases hdata : data.toValue with
    | error error => exact ⟨rfl, hvalid⟩
    | ok value =>
      rw [hdata] at hsources
      obtain ⟨hresult, hvalid'⟩ := renderValue_uncached htransparent hvalid hsources
      exact ⟨congrArg Answer.text hresult, hvalid'⟩
  | renderValue name data =>
    obtain ⟨hresult, hvalid'⟩ := renderValue_uncached htransparent hvalid hsources
    exact ⟨congrArg Answer.text hresult, hvalid'⟩
  | compile source =>
    obtain ⟨hresult, hvalid'⟩ :=
      htransparent.compile e.cache source (hsources _ (.head _)) hvalid
    exact ⟨congrArg Answer.tree hresult, hvalid'⟩

end Engine

/-! ### Sessions -/

/-- The parts of an engine that it shares with no other one, and the numbers of its loaders. -/
structure Setup where
  loader : Nat
  partials : Option Nat
  escape : String → String
  dataVariables : Bool

/-- Engines in the order in which they were made, and what they share. -/
structure Session where
  loaders : Nat → Loader
  engines : List Setup
  helpers : Registry
  cache : Cache

/-- What is done in a session: an engine is used; a text is entered or replaced in a table; a loader
is replaced, for example because its files have changed; helpers are entered, replaced or removed;
the cache is cleared, or opened anew; another engine is made. Engines and loaders are meant by
their numbers. -/
inductive Operation where
  | use (engine : Nat) (u : Use)
  | addTemplate (loader : Nat) (name source : String)
  | setLoader (loader : Nat) (new : Loader)
  | addHelper (name : String) (helper : Helper)
  | removeHelper (name : String)
  | clearCache
  | reopenCache (process : UInt32)
  | addEngine (setup : Setup)

/-- A loader with a text under a name; only tables can be changed. -/
def Loader.add (name source : String) : Loader → Loader
  | .table templates => .table (templates.insert name source)
  | loader => loader

namespace Session

/-- The engine of the given setup. -/
def engine (s : Session) (setup : Setup) : Engine where
  loader := s.loaders setup.loader
  partials := setup.partials.map s.loaders
  helpers := s.helpers
  cache := s.cache
  escape := setup.escape
  dataVariables := setup.dataVariables

/-- A session with another loader under a number. -/
def setLoader (s : Session) (loader : Nat) (new : Loader) : Session :=
  { s with loaders := fun i => if i = loader then new else s.loaders i }

/-- What is answered to an operation, and the session afterwards. -/
def step (s : Session) : Operation → Answer × Session
  | .use i u =>
    match s.engines[i]? with
    | none => (.nothing, s)
    | some setup =>
      let (answer, e) := (s.engine setup).use u
      (answer, { s with cache := e.cache })
  | .addTemplate loader name source =>
    (.nothing, s.setLoader loader ((s.loaders loader).add name source))
  | .setLoader loader new => (.nothing, s.setLoader loader new)
  | .addHelper name helper => (.nothing, { s with helpers := s.helpers.insert name helper })
  | .removeHelper name =>
    (.found (s.helpers.find? name).isSome, { s with helpers := s.helpers.erase name })
  | .clearCache => (.nothing, { s with cache := s.cache.clear })
  | .reopenCache process => (.nothing, { s with cache := s.cache.reopen process })
  | .addEngine setup => (.nothing, { s with engines := s.engines ++ [setup] })

/-- The session behind operations. -/
def after : List Operation → Session → Session
  | [], s => s
  | op :: ops, s => after ops (s.step op).2

/-- The texts whose trees an operation asks for. -/
def stepSources (s : Session) : Operation → List String
  | .use i u =>
    match s.engines[i]? with
    | none => []
    | some setup => ((s.engine setup).useLookups u).map Render.Lookup.source
  | _ => []

/-- The texts whose trees operations ask for, one after another. -/
def sources : List Operation → Session → List String
  | [], _ => []
  | op :: ops, s => s.stepSources op ++ sources ops (s.step op).2

/-- The same engines without a cache, over the templates, partials and helpers of the moment. -/
def uncached (s : Session) : Session :=
  { s with cache := .none }

theorem sources_append (ops later : List Operation) (s : Session) :
    s.sources (ops ++ later) = s.sources ops ++ (s.after ops).sources later := by
  induction ops generalizing s with
  | nil => rfl
  | cons op ops ih =>
    show s.stepSources op ++ sources (ops ++ later) (s.step op).2 = _
    rw [ih, ← List.append_assoc]
    rfl

variable {s : Session} {used : List String} {Valid : Cache → Prop}

/-- An operation gives the answer that the same engines without a cache give, and leaves the cache
valid. -/
theorem step_uncached (htransparent : Cache.Transparent used Valid) (hvalid : Valid s.cache)
    (op : Operation) (hsources : ∀ source ∈ s.stepSources op, source ∈ used) :
    (s.step op).1 = (s.uncached.step op).1 ∧ Valid (s.step op).2.cache := by
  -- Beside uses, only the two operations on the cache change it.
  cases op with
  | use i u =>
    simp only [stepSources] at hsources
    simp only [step, uncached]
    cases hengine : s.engines[i]? with
    | none => exact ⟨rfl, hvalid⟩
    | some setup =>
      rw [hengine] at hsources
      have hlookups : ∀ l ∈ (s.engine setup).useLookups u, l.source ∈ used := fun l hl =>
        hsources _ (List.mem_map_of_mem hl)
      exact Engine.use_uncached htransparent hvalid u hlookups
  | addTemplate loader name source => exact ⟨rfl, hvalid⟩
  | setLoader loader new => exact ⟨rfl, hvalid⟩
  | addHelper name helper => exact ⟨rfl, hvalid⟩
  | removeHelper name => exact ⟨rfl, hvalid⟩
  | clearCache => exact ⟨rfl, htransparent.clear _ hvalid⟩
  | reopenCache process => exact ⟨rfl, htransparent.reopen process _ hvalid⟩
  | addEngine setup => exact ⟨rfl, hvalid⟩

theorem valid_after (htransparent : Cache.Transparent used Valid) (hvalid : Valid s.cache)
    (ops : List Operation) (hsources : ∀ source ∈ s.sources ops, source ∈ used) :
    Valid (s.after ops).cache := by
  induction ops generalizing s with
  | nil => exact hvalid
  | cons op ops ih =>
    have hfirst : ∀ source ∈ s.stepSources op, source ∈ used := fun source h =>
      hsources source (List.mem_append_left _ h)
    have hrest : ∀ source ∈ (s.step op).2.sources ops, source ∈ used := fun source h =>
      hsources source (List.mem_append_right _ h)
    exact ih (step_uncached htransparent hvalid op hfirst).2 hrest

/-- After any operations, the next one gives the answer that the engines give without a cache, over
the templates, partials and helpers of that moment. -/
theorem step_eq_uncached (htransparent : Cache.Transparent used Valid) (hvalid : Valid s.cache)
    (ops : List Operation) (op : Operation)
    (hsources : ∀ source ∈ s.sources (ops ++ [op]), source ∈ used) :
    ((s.after ops).step op).1 = ((s.after ops).uncached.step op).1 ∧ Valid (s.after ops).cache := by
  rw [sources_append] at hsources
  have hbefore : ∀ source ∈ s.sources ops, source ∈ used := fun source h =>
    hsources source (List.mem_append_left _ h)
  have hnow : ∀ source ∈ (s.after ops).stepSources op, source ∈ used := fun source h =>
    hsources source (List.mem_append_right _ (List.mem_append_left _ h))
  have hafter := valid_after htransparent hvalid ops hbefore
  exact ⟨(step_uncached htransparent hafter op hnow).1, hafter⟩

/-! ### Caches in memory -/

/-- After any operations that start with an empty cache in memory, the next one gives the answer
that the engines give without a cache, over the templates, partials and helpers of that moment. All
entries of the cache are trees of texts that have been used, under their digests, and a text without
a tree leaves the cache as it is. -/
theorem step_eq_uncached_of_memory (hcache : s.cache = .memory .empty) (ops : List Operation)
    (op : Operation) (hdigest : Digest.Separates (s.sources (ops ++ [op]))) :
    ((s.after ops).step op).1 = ((s.after ops).uncached.step op).1 ∧
      ∃ m, (s.after ops).cache = .memory m ∧ m.Holds (s.sources ops) ∧
        ∀ source e, ((s.after ops).cache.compile source).1 = .error e →
          ((s.after ops).cache.compile source).2 = (s.after ops).cache := by
  have hstart (used : List String) : ∃ m, s.cache = .memory m ∧ m.Holds used :=
    ⟨.empty, hcache, MemoryCache.holds_empty used⟩
  have hbefore : ∀ source ∈ s.sources ops, source ∈ s.sources (ops ++ [op]) := by
    intro source h
    rw [sources_append]
    exact List.mem_append_left _ h
  obtain ⟨m, hm, hholds⟩ := valid_after (Cache.transparent_memory (hdigest.mono hbefore))
    (hstart _) ops fun _ h => h
  refine ⟨(step_eq_uncached (Cache.transparent_memory hdigest) (hstart _) ops op fun _ h => h).1,
    m, hm, hholds, ?_⟩
  -- Which texts have been used does not matter for this.
  intro source e herror
  rw [hm] at herror ⊢
  exact Cache.compile_memory_of_error herror

/-- A partial is replaced between two renders. -/
theorem step_eq_uncached_of_memory_partial :
    let page := "\x7b\x7b#each items\x7d\x7d\x7b\x7b> row\x7d\x7d\x7b\x7b/each\x7d\x7d"
    let row := "\x7b\x7bthis\x7d\x7d, "
    let loud := "\x7b\x7bupper this\x7d\x7d! "
    let s : Session := {
      loaders := fun _ => .table [("page", page), ("row", row)]
      engines := [⟨0, none, Text.Html.escape, false⟩]
      helpers := Registry.builtin
      cache := .memory .empty }
    let render : Operation := .use 0 (.renderValue "page" (.map [("items", .list [.str "a"])]))
    let ops : List Operation := [render, .addTemplate 0 "row" loud]
    s.sources (ops ++ [render]) = [page, row, page, loud] ∧
      ((s.after ops).step render).1 = ((s.after ops).uncached.step render).1 ∧
      ((s.after ops).step render).1.text? = some "A! " := by
  intro page row loud s render ops
  have hsources : s.sources (ops ++ [render]) = [page, row, page, loud] := by decide +kernel
  have hdigest : Digest.Separates (s.sources (ops ++ [render])) := by
    rw [hsources]
    decide +kernel
  exact ⟨hsources, (step_eq_uncached_of_memory rfl ops render hdigest).1, by decide +kernel⟩

end Session

end Stencil
