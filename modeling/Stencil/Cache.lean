import Stencil.Digest
import Stencil.FileTree
import Stencil.Template.Assembly
import Stencil.Template.Codec

/-!
# Caches

A cache keeps the trees of templates under the digests of their texts, in memory or in the files of
a directory.

## Main definitions

* `MemoryCache` - trees by key, with a number for each writing
* `DiskCache` - trees in the files of a directory
* `Cache` - no cache, or one of these
* `Cache.compile` - the tree of a text, from the cache if it is there

## Design notes

An entry of a directory is written under a name of its own and then renamed, so that a reader never
meets half of an entry. A key is part of a file name and consists of letters and digits of ASCII,
hyphens and underscores; the names under which entries are written start with a point and
therefore never meet the name of an entry.
-/

namespace Stencil

/-- Trees by key. The number of an entry tells one writing from another. -/
structure MemoryCache where
  entries : Entries (Nat × Template)
  writes : Nat

/-- The directory of a cache: what is found in its place, if anything; the number of writings; and
the number of the process. -/
structure DiskCache where
  place : Option FileTree
  writes : Nat
  process : Nat

/-- No cache, trees in memory, or trees in a directory. -/
inductive Cache where
  | none
  | memory (cache : MemoryCache)
  | disk (cache : DiskCache)

namespace MemoryCache

/-- Without entries. -/
def empty : MemoryCache := ⟨[], 0⟩

/-- The tree under a key. -/
def get (c : MemoryCache) (key : String) : Option Template :=
  (c.entries.find? key).map Prod.snd

/-- The number of the writing that entered the tree under a key. -/
def version? (c : MemoryCache) (key : String) : Option Nat :=
  (c.entries.find? key).map Prod.fst

/-- Enters a tree under a key. -/
def set (c : MemoryCache) (key : String) (t : Template) : MemoryCache :=
  ⟨c.entries.insert key (c.writes, t), c.writes + 1⟩

/-- Removes all entries. -/
def clear (c : MemoryCache) : MemoryCache :=
  { c with entries := [] }

end MemoryCache

namespace DiskCache

/-- Whether a text can be a key. -/
def isKey (key : String) : Bool :=
  key ≠ "" && key.toList.all fun c => c.isAlphanum || c = '-' || c = '_'

/-- The file name of the entry of a key. -/
def fileName (key : String) : String :=
  key ++ ".json"

/-- The file name under which an entry is written. -/
def temporaryName (c : DiskCache) (key : String) : String :=
  "." ++ key ++ "." ++ Number.natText c.process ++ "." ++ Number.natText c.writes ++ ".tmp"

/-- The tree under a key. -/
def get (c : DiskCache) (key : String) : Except Error (Option Template) :=
  if !isKey key then .error (.cache key .key)
  else
    match c.place with
    | none => .ok none
    | some place =>
      match place.walk [] [fileName key] with
      | .error .missing => .ok none
      | .ok (.text content) =>
        match Template.decode? content with
        | some t => .ok (some t)
        | none => .error (.cache key .entry)
      | _ => .error (.cache key .entry)

/-- Writes a file into a directory. -/
def writeFile (name content : String) (entries : Entries FileTree) :
    Except FileFault (Entries FileTree) :=
  if FileTree.isLongName name then .error .unreadable
  else
    match entries.find? name with
    | some (.directory _) => .error .unreadable
    | _ => .ok (entries.insert name (.text content))

/-- Renames a file of a directory; a file that had the new name is replaced. -/
def rename (old new : String) (entries : Entries FileTree) :
    Except FileFault (Entries FileTree) :=
  match entries.find? old, entries.find? new with
  | none, _ => .error .missing
  | some _, some (.directory _) => .error .unreadable
  | some file, _ => .ok ((entries.erase old).insert new file)

/-- The directory as a writing leaves it. -/
def after (c : DiskCache) (entries : Entries FileTree) : DiskCache :=
  { c with place := some (.directory entries), writes := c.writes + 1 }

/-- Stores a tree under a key. The directory is made if it is missing. -/
def set (c : DiskCache) (key : String) (t : Template) : Except Error Unit × DiskCache :=
  if !isKey key then (.error (.cache key .key), c)
  else
    match c.place.getD (.directory []) with
    | .directory entries =>
      let temporary := c.temporaryName key
      match writeFile temporary t.encode entries with
      | .error _ => (.error (.cache key .entry), c.after entries)
      | .ok written =>
        match rename temporary (fileName key) written with
        | .error _ => (.error (.cache key .entry), c.after (written.erase temporary))
        | .ok renamed => (.ok (), c.after renamed)
    | _ => (.error (.cache key .entry), c)

/-- The names of the files in the directory, sorted. -/
def fileNames (c : DiskCache) : List String :=
  match c.place with
  | some (.directory entries) => Entries.sortedNames entries
  | _ => []

end DiskCache

namespace Cache

/-- The tree under a key. -/
def get (c : Cache) (key : String) : Except Error (Option Template) :=
  match c with
  | .none => .ok Option.none
  | .memory cache => .ok (cache.get key)
  | .disk cache => cache.get key

/-- Stores a tree under a key. -/
def set (c : Cache) (key : String) (t : Template) : Except Error Unit × Cache :=
  match c with
  | .none => (.ok (), .none)
  | .memory cache => (.ok (), .memory (cache.set key t))
  | .disk cache =>
    let (result, cache) := cache.set key t
    (result, .disk cache)

/-- Whether there is a tree under a key. -/
def contains (c : Cache) (key : String) : Except Error Bool :=
  (c.get key).map Option.isSome

/-- The tree of a text: from the cache if it is there, and otherwise read from the text and
stored. -/
def compile (c : Cache) (source : String) : Except Error Template × Cache :=
  match c with
  | .none => (Template.parse source, .none)
  | _ =>
    let key := Digest.hex source
    match c.get key with
    | .error e => (.error e, c)
    | .ok (some t) => (.ok t, c)
    | .ok Option.none =>
      match Template.parse source with
      | .error e => (.error e, c)
      | .ok t =>
        match c.set key t with
        | (.error e, c) => (.error e, c)
        | (.ok (), c) => (.ok t, c)

end Cache

end Stencil
