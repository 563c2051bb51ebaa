import Stencil.Digest
import Stencil.Error
import Stencil.FileTree

/-!
# Loaders

A loader finds the text of a template by its name.

## Main definitions

* `TemplateSource` - the name and the text of a template, and its key
* `TemplateTable` - templates by name
* `TemplateTable.ofDirectory` - the templates in the files of a directory
* `DirectoryLoader` - reads a file each time a template is asked for
* `Loader` - all ways to find a template

## Design notes

A name never leads out of the directory of a loader: it has to consist of plain names, and
everything else counts as missing before any file is looked at.
-/

namespace Stencil

/-- The name and the text of a template. -/
structure TemplateSource where
  name : String
  source : String
  deriving Repr, DecidableEq

/-- The key of a template: the digest of its text. -/
def TemplateSource.key (t : TemplateSource) : String :=
  Digest.hex t.source

/-- Templates by name. -/
abbrev TemplateTable := Entries String

/-- Reads `root/name.extension` in a tree of files. -/
structure DirectoryLoader where
  tree : FileTree
  root : String
  extension : String

/-- The ways to find a template: the name is the text, a table, or a directory. -/
inductive Loader where
  | verbatim
  | table (templates : TemplateTable)
  | directory (loader : DirectoryLoader)

/-- Why the templates of a directory cannot be read: the directory, or one of its files. -/
inductive DirectoryFault where
  | walk (path : String)
  | read (path : String)
  deriving Repr, DecidableEq

/-- The text of a fault of a directory. -/
def DirectoryFault.message : DirectoryFault → String
  | .walk path => "Failed to walk template dir: " ++ path
  | .read path => "Failed to read template file: " ++ path

/-- A path behind another one. One that starts at the root takes the place of what is in front of
it. -/
def joinPath (front back : String) : String :=
  if back.toList.head? = some '/' then back
  else if front = "" then back
  else if front.toList.getLast? = some '/' then front ++ back
  else front ++ "/" ++ back

namespace DirectoryLoader

/-- The path of the file of a template. The name has to consist of plain names. -/
def path? (loader : DirectoryLoader) (name : String) : Option String :=
  let isPlain (part : PathPart) : Bool := match part with
    | .name _ => true
    | _ => false
  if (pathParts name).all isPlain then
    some (joinPath loader.root (name ++ "." ++ loader.extension))
  else none

/-- The template of the given name. -/
def load (loader : DirectoryLoader) (name : String) : Except Error TemplateSource :=
  match loader.path? name with
  | none => .error (.notFound name)
  | some path =>
    match loader.tree.readText path with
    | .ok source => .ok ⟨name, source⟩
    | .error .missing => .error (.notFound name)
    | .error .unreadable => .error .io

end DirectoryLoader

namespace TemplateTable

/-- The template of the given name. -/
def load (templates : TemplateTable) (name : String) : Except Error TemplateSource :=
  match templates.find? name with
  | some source => .ok ⟨name, source⟩
  | none => .error (.notFound name)

/-- A file name without its extension. Where a single point would remain, the name of the
directory above does. -/
def stem (name : String) : String :=
  match splitExtension? name with
  | none => name
  | some (before, _) => if before = "." then ".." else before

/-- The name of the template in a file, given the names that lead to the file. -/
def nameOfFile : List String → String
  | [] => ""
  | [name] => stem name
  | name :: names => name ++ "/" ++ nameOfFile names

/-- Whether a file belongs to the templates: whether its name has the given extension. -/
def hasExtension (extension : String) (name : String) : Bool :=
  match splitExtension? name with
  | none => false
  | some (_, found) => found = extension

/-- Whether the file that names lead to from a directory belongs to the templates. -/
def isTemplate (dir extension : String) (names : List String) : Bool :=
  (names.getLast?.or (fileName? dir)).any (hasExtension extension)

/-- Enters the templates of the files that lists of names lead to, given the path of their
directory, the same path as it is shown, and the extension. What cannot be found under its path is
no file. -/
def ofFiles (tree : FileTree) (shown dir extension : String) (templates : TemplateTable) :
    List (List String) → Except DirectoryFault TemplateTable
  | [] => .ok templates
  | names :: files =>
    if isTemplate dir extension names then
      match tree.open? (names.foldl joinPath dir) with
      | .ok (.text source) =>
        ofFiles tree shown dir extension (templates.insert (nameOfFile names) source) files
      | .ok .binary => .error (.read (names.foldl joinPath shown))
      | _ => ofFiles tree shown dir extension templates files
    else ofFiles tree shown dir extension templates files

/-- The templates in the files of a directory and of those below it. A template has the name
of its file without the extension, behind the names of the directories that lead to it. All
directories have to be found under their paths. `top` is the path of the tree as it is shown. -/
def ofDirectory (tree : FileTree) (top dir extension : String) :
    Except DirectoryFault TemplateTable :=
  let shown := top ++ "/" ++ dir
  match tree.open? dir with
  | .error _ => .error (.walk shown)
  | .ok found =>
    if found.directories.all fun names => (tree.open? (names.foldl joinPath dir)).isOk then
      ofFiles tree shown dir extension [] (found.files.map Prod.fst)
    else .error (.walk shown)

end TemplateTable

/-- The template of the given name. -/
def Loader.load (loader : Loader) (name : String) : Except Error TemplateSource :=
  match loader with
  | .verbatim => .ok ⟨name, name⟩
  | .table templates => templates.load name
  | .directory loader => loader.load name

end Stencil
