import Stencil.CommandLine

/-!
# The program

Reads the files that the command line names, and prints the report of a run.

## Main definitions

* `main` - the program

## Design notes

What a run needs is read before it starts: the template and the data, and then partial after partial
whatever a template that has been read can ask for, together with the cache's entry for it. What the
run has entered into the cache is written afterwards, under the names that no reader looks for
first.
-/

namespace Stencil.Files

/-- What is in the place of a file, if anything. -/
def read? (path : String) : IO (Option FileTree) := do
  try
    return some (.text (← IO.FS.readFile path))
  catch
    | .noFileOrDirectory .. => return none
    | _ => return some .binary

/-- The text of a file, if it can be read. -/
def readText? (path : String) : IO (Option String) := do
  match ← read? path with
  | some (.text content) => return some content
  | _ => return none

/-- A directory with a file in it, where one has been found. -/
def add (path : String) (file : Option FileTree) (tree : FileTree) : FileTree :=
  match file with
  | none => tree
  | some file =>
    FileTree.put file ((pathNames path).filter fun name => name ≠ "" ∧ name ≠ ".") tree

/-- The partials and the entries of the cache that are read, and the names of the partials. -/
structure Found where
  names : List String
  partials : FileTree
  cache : FileTree

/-- The tree of a template: the cache's entry for it, if there is one, and otherwise what its text
gives. The entry is kept. -/
def compile (cacheDir : Option String) (source : String) (found : Found) :
    IO (Option Template × Found) := do
  let name := DiskCache.fileName (Digest.hex source)
  let entry ← match cacheDir with
    | none => pure none
    | some dir => read? (joinPath dir name)
  let stored := match entry with
    | some (.text content) => Template.decode? content
    | _ => none
  return (stored <|> (Template.parse source).toOption,
    { found with cache := add name entry found.cache })

/-- The text of a partial, if there is one. What has been found in the place of its file is kept. -/
def findPartial (root : Option String) (name : String) (found : Found) :
    IO (Option String × Found) := do
  match root with
  | none => return (some name, found)
  | some root =>
    match DirectoryLoader.path? ⟨.empty, "", "hbs"⟩ name with
    | none => return (none, found)
    | some path =>
      let file ← read? (joinPath root path)
      let source := match file with
        | some (.text source) => some source
        | _ => none
      return (source, { found with partials := add path file found.partials })

/-- Reads the partials that a template can ask for, and those that these can ask for. -/
partial def collect (a : Arguments) (source : String) (found : Found) : IO Found := do
  let (template, found) ← compile a.cacheDir source found
  let names := (template.map Template.partialNames).getD []
  names.foldlM
    (fun found name => do
      if name ∈ found.names then return found
      let (source, found) ← findPartial a.partials name { found with names := name :: found.names }
      match source with
      | none => return found
      | some source => collect a source found)
    found

/-- What is found in the places that arguments name. -/
def surroundings (a : Arguments) : IO Surroundings := do
  let template ← readText? a.template
  let data ← match a.data with
    | none => pure none
    | some path => readText? path
  let found ← match template with
    | none => pure ⟨[], .empty, .empty⟩
    | some source => collect a source ⟨[], .empty, .empty⟩
  return ⟨template, data, some found.partials, some found.cache⟩

/-- Writes an entry of a cache, under another name first. -/
def writeEntry (dir name : String) (content : String) : IO Unit := do
  let stamp ← IO.monoNanosNow
  let temporary := joinPath dir ("." ++ name ++ "." ++ Number.natText stamp ++ ".tmp")
  IO.FS.writeFile temporary content
  IO.FS.rename temporary (joinPath dir name)

/-- Writes the entries of a cache that have not been there before. -/
def storeCache (dir : String) (before : Option FileTree) (after : Cache) : IO Unit := do
  match after with
  | .disk ⟨some (.directory entries), _, _⟩ =>
    let old := match before with
      | some (.directory entries) => entries
      | _ => []
    for (name, file) in entries do
      match file with
      | .text content =>
        if (old.find? fun entry => entry.1 = name).isNone then
          IO.FS.createDirAll dir
          writeEntry dir name content
      | _ => pure ()
  | _ => pure ()

/-- Prints a report and gives the exit code. -/
def print (report : Report) : IO UInt32 := do
  let out ← IO.getStdout
  out.putStr report.output
  out.flush
  if let some text := report.error then
    IO.eprintln ("Error: " ++ text)
    if let some cause := report.cause then
      IO.eprintln ("\nCaused by:\n    " ++ cause)
  return UInt32.ofNat report.code

end Stencil.Files

open Stencil

/-- How the program is called. -/
def Stencil.usage : String :=
  "Usage: stencil TEMPLATE [--data FILE] [--partials DIR] [--cache-dir DIR] [--data-variables]"

/-- Renders the template that the command line names. -/
def main (args : List String) : IO UInt32 := do
  match Arguments.parse? args with
  | none =>
    IO.eprintln usage
    return 2
  | some a =>
    let found ← Files.surroundings a
    let (report, cache) := CommandLine.run 0 a found
    if let some dir := a.cacheDir then
      Files.storeCache dir found.cache cache
    Files.print report
