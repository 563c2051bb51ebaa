import Stencil.Render
import Stencil.Text.Html
import Stencil.Value.Datum

/-!
# Engines

An engine finds, reads, stores and renders templates. Its cache changes with its use; every other
part changes only on demand.

## Main definitions

* `Engine` - the parts of an engine
* `Engine.renderValue`, `Engine.render` - renders a template by its name
* `Engine.compile` - the tree of a text

## Design notes

Every render starts with a scope and a table of fragments of its own; all that it leaves behind
is the cache.
-/

namespace Stencil

/-- The parts of an engine: where templates and partials are found, the helpers, the cache, how
texts are escaped, and whether data variables are enabled. Without a loader of their own,
partials are found where templates are. -/
structure Engine where
  loader : Loader
  partials : Option Loader
  helpers : Registry
  cache : Cache
  escape : String → String
  dataVariables : Bool

namespace Engine

/-- The engine whose templates are their own names, with the built-in helpers, escaping for HTML,
no cache, and data variables disabled. -/
def standard : Engine where
  loader := .verbatim
  partials := none
  helpers := Registry.builtin
  cache := .none
  escape := Text.Html.escape
  dataVariables := false

/-- What stays the same during a render. -/
def renderEnv (e : Engine) : RenderEnv where
  helpers := e.helpers
  partials := e.partials.getD e.loader
  escape := e.escape

/-- The tree of a text, from the cache if it is there. -/
def compile (e : Engine) (source : String) : Except Error Template × Engine :=
  let (result, cache) := e.cache.compile source
  (result, { e with cache := cache })

/-- Renders a template by its name. -/
def renderValue (e : Engine) (name : String) (data : Value) : Except Error String × Engine :=
  match e.loader.load name with
  | .error error => (.error error, e)
  | .ok source =>
    match e.compile source.source with
    | (.error error, e) => (.error error, e)
    | (.ok template, e) =>
      let start : RenderState := ⟨Scope.ofRoot data e.dataVariables, [], 0, e.cache⟩
      let (result, st) := Render.template e.renderEnv template start
      (result, { e with cache := st.cache })

/-- Renders a template by its name against the data of a program. -/
def render (e : Engine) (name : String) (data : Datum) : Except Error String × Engine :=
  match data.toValue with
  | .error error => (.error error, e)
  | .ok value => e.renderValue name value

/-- An engine with another helper under a name. -/
def addHelper (e : Engine) (name : String) (helper : Helper) : Engine :=
  { e with helpers := e.helpers.insert name helper }

/-- An engine without the helper of a name, and whether there was one. -/
def removeHelper (e : Engine) (name : String) : Bool × Engine :=
  ((e.helpers.find? name).isSome, { e with helpers := e.helpers.erase name })

/-- The helper of a name. -/
def getHelper (e : Engine) (name : String) : Except Error Helper :=
  match e.helpers.find? name with
  | some helper => .ok helper
  | none => .error (.unknownHelper name)

end Engine

end Stencil
