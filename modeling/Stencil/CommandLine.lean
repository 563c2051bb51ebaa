import Stencil.Engine
import Stencil.Json.Reader

/-!
# The command line

A run of the program: it reads a template and its data from files, renders the template, and
prints the result.

## Main definitions

* `Arguments` - what the command line asks for
* `Report` - what a run prints, and its exit code
* `Surroundings` - what is found in the places that arguments name
* `CommandLine.run` - a run
* `Arguments.parse?` - the arguments that words on the command line stand for
-/

namespace Stencil

/-- What the command line asks for. -/
structure Arguments where
  template : String
  data : Option String
  partials : Option String
  cacheDir : Option String
  dataVariables : Bool

/-- What a run prints, and its exit code. An error has a text and possibly a cause. -/
structure Report where
  code : Nat
  output : String
  error : Option String
  cause : Option String

/-- What a run says about an error. -/
def Report.failed (error : String) (cause : Option String) : Report :=
  ⟨1, "", some error, cause⟩

/-- The depth of nesting that data may have. -/
def maxDataDepth : Nat := 127

namespace Arguments

/-- Without options. -/
def ofTemplate (template : String) : Arguments :=
  ⟨template, none, none, none, false⟩

/-- Sets the option of the given name. -/
def set? (a : Arguments) (name value : String) : Option Arguments :=
  if name = "--data" ∨ name = "-d" then some { a with data := some value }
  else if name = "--partials" ∨ name = "-p" then some { a with partials := some value }
  else if name = "--cache-dir" then some { a with cacheDir := some value }
  else none

/-- Reads words, given the template if it has come already. The value of an option follows its
name, or an equals sign behind its name. -/
def parseFrom? (template : Option String) (a : Arguments) : List String → Option Arguments
  | [] => template.map fun template => { a with template := template }
  | word :: words =>
    if word = "--data-variables" then parseFrom? template { a with dataVariables := true } words
    else
      match Text.splitAtMark? ['='] word.toList with
      | some ('-' :: '-' :: name, value) =>
        (a.set? (String.ofList ('-' :: '-' :: name)) (String.ofList value)).bind
          (parseFrom? template · words)
      | _ =>
        if word.toList.head? = some '-' then
          match words with
          | [] => none
          | value :: words => (a.set? word value).bind (parseFrom? template · words)
        else if template.isSome then none
        else parseFrom? (some word) a words

/-- The arguments that words on the command line stand for. -/
def parse? (words : List String) : Option Arguments :=
  parseFrom? none (ofTemplate "") words

end Arguments

/-- What is found in the places that arguments name: the texts of the template and of the data,
if they can be read, and what the directories of the partials and of the cache hold, if they are
there. -/
structure Surroundings where
  template : Option String
  data : Option String
  partials : Option FileTree
  cache : Option FileTree

namespace CommandLine

/-- The data that the arguments name; without any, an empty map. -/
def readData (a : Arguments) (found : Surroundings) : Except Report Value :=
  match a.data with
  | none => .ok (.map [])
  | some path =>
    match found.data with
    | none => .error (.failed ("Failed to read data file: " ++ path) none)
    | some text =>
      match (Json.readNested? maxDataDepth text.toList).bind Value.ofJson? with
      | none => .error (.failed ("Data file is not valid JSON: " ++ path) none)
      | some value => .ok value

/-- The loader for partials in a directory. -/
def partialsLoader (root : String) (place : Option FileTree) : Loader :=
  .directory ⟨.directory (place.map fun found => (root, found)).toList, root, "hbs"⟩

/-- The engine of a run. -/
def engineOf (process : Nat) (a : Arguments) (found : Surroundings) : Engine :=
  { Engine.standard with
    partials := a.partials.map fun _ => partialsLoader "partials" found.partials
    cache := if a.cacheDir.isSome then .disk ⟨found.cache, 0, process⟩ else .none
    dataVariables := a.dataVariables }

/-- What is reported about a render. -/
def reportOf (template : String) : Except Error String → Report
  | .ok text => ⟨0, text, none, none⟩
  | .error .missingZone => ⟨101, "", none, none⟩
  | .error e => .failed ("Failed to render " ++ template) (some e.message)

/-- A run: what it prints, and the cache that it leaves. -/
def run (process : Nat) (a : Arguments) (found : Surroundings) : Report × Cache :=
  let engine := engineOf process a found
  match found.template with
  | none => (.failed ("Failed to read template: " ++ a.template) none, engine.cache)
  | some source =>
    match readData a found with
    | .error report => (report, engine.cache)
    | .ok value =>
      let (result, engine) := engine.renderValue source value
      (reportOf a.template result, engine.cache)

end CommandLine

end Stencil
