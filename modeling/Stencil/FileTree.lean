import Stencil.Entries
import Stencil.Text.Search

/-!
# File trees

Files and directories by name, as far as templates can tell them apart, and the paths that lead to
them.

## Main definitions

* `FileTree` - files and directories
* `FileTree.open?`, `FileTree.readText` - what a path leads to
* `FileTree.files`, `FileTree.directories` - all files and directories, by the names that lead to
  them
* `FileTree.put` - a tree with another content at a path
* `PathPart`, `pathParts` - the parts that a path consists of
* `splitExtension?` - the extension of a file name and what precedes it

## Design notes

Names are separated by slashes. Empty names and single points stay where they are, so
that a path ending in them leads to directories only. A name has at most 255 bytes, and a path
less than 4096. What lies beyond the top of a tree is unknown and counts as missing.
-/

namespace Stencil

/-- Files and directories. Of a file whose bytes are no text in UTF-8 only that is known. -/
inductive FileTree where
  | text (content : String)
  | binary
  | directory (entries : List (String × FileTree))

/-- Why a path leads nowhere, or a file cannot be read. -/
inductive FileFault where
  | missing
  | unreadable
  deriving Repr, DecidableEq

/-- The pieces of a path between its slashes. -/
def pathNames (path : String) : List String :=
  (Text.splitOn (· = '/') path.toList).map String.ofList

namespace FileTree

/-- Whether a name is longer than a file name can be. -/
def isLongName (name : String) : Bool :=
  255 < name.utf8ByteSize

/-- Follows names from a place in a tree, where `above` lists the directories around it, the
nearest one first. -/
def walk (above : List FileTree) (here : FileTree) : List String → Except FileFault FileTree
  | [] => .ok here
  | name :: names =>
    match here with
    | .directory entries =>
      if name = "" ∨ name = "." then walk above here names
      else if name = ".." then
        match above with
        | [] => .error .missing
        | parent :: above => walk above parent names
      else if isLongName name then .error .unreadable
      else
        match Entries.find? name entries with
        | none => .error .missing
        | some child => walk (here :: above) child names
    | _ => .error .unreadable

/-- What a path leads to. -/
def open? (tree : FileTree) (path : String) : Except FileFault FileTree :=
  if '\x00' ∈ path.toList ∨ 4096 ≤ path.utf8ByteSize then .error .unreadable
  else walk [] tree (pathNames path)

/-- The text of the file that a path leads to. -/
def readText (tree : FileTree) (path : String) : Except FileFault String :=
  match tree.open? path with
  | .error fault => .error fault
  | .ok (.text content) => .ok content
  | .ok _ => .error .unreadable

mutual

/-- All files of a tree with the names that lead to them. -/
def files : FileTree → List (List String × FileTree)
  | .directory entries => entriesFiles entries
  | .text content => [([], .text content)]
  | .binary => [([], .binary)]

/-- All files below the entries of a directory. -/
def entriesFiles : List (String × FileTree) → List (List String × FileTree)
  | [] => []
  | (name, tree) :: entries =>
    (files tree).map (fun (names, file) => (name :: names, file)) ++ entriesFiles entries

end

mutual

/-- The names that lead to the directories of a tree. -/
def directories : FileTree → List (List String)
  | .directory entries => [] :: entriesDirectories entries
  | _ => []

/-- The names that lead to the directories below the entries of a directory. -/
def entriesDirectories : List (String × FileTree) → List (List String)
  | [] => []
  | (name, tree) :: entries => (directories tree).map (name :: ·) ++ entriesDirectories entries

end

/-- A tree with another content at the place that names lead to. Directories on the way are made
where they are missing. -/
def put (content : FileTree) : List String → FileTree → FileTree
  | [], _ => content
  | name :: names, tree =>
    let entries := match tree with
      | .directory entries => entries
      | _ => []
    let child := (Entries.find? name entries).getD (.directory [])
    .directory (Entries.insert name (put content names child) entries)

/-- A tree without anything in it. -/
def empty : FileTree := .directory []

end FileTree

/-- The parts of a path: its start at the root, the current directory, the directory above, and
names. -/
inductive PathPart where
  | root
  | here
  | above
  | name (name : String)
  deriving Repr, DecidableEq

/-- The parts that a path consists of. Empty pieces do not count, and a single point only
counts at the start of a path. -/
def pathParts (path : String) : List PathPart :=
  let part (name : String) : PathPart := if name = ".." then .above else .name name
  match pathNames path with
  | [] => []
  | first :: rest =>
    let front : List PathPart :=
      if first = "" then (if rest = [] then [] else [.root])
      else if first = "." then [.here]
      else [part first]
    front ++ (rest.filter fun name => name ≠ "" ∧ name ≠ ".").map part

/-- The last name of a path, if it ends in a name. -/
def fileName? (path : String) : Option String :=
  match (pathParts path).getLast? with
  | some (.name name) => some name
  | _ => none

/-- What precedes the last point of a file name, and what follows it. A name whose only point
stands at its start has no extension. -/
def splitExtension? (name : String) : Option (String × String) :=
  let after := (name.toList.reverse.takeWhile (· ≠ '.')).reverse
  let before := name.toList.take (name.toList.length - after.length - 1)
  if '.' ∉ name.toList ∨ before = [] then none
  else some (String.ofList before, String.ofList after)

end Stencil
