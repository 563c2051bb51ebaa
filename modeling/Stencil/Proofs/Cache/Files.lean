import Stencil.Cache

/-!
# The files of a cache in a directory

The files of two keys never have the same name, and no file is ever written under a name that the
file of a key can have. What a cache in a directory answers and what it leaves behind is therefore
told by a table of files: an entry is looked up under the name of its file, and entered under it.

## Main definitions

* `DiskCache.files` - the files of a directory

Main statements: `DiskCache.get_eq`, `DiskCache.set_eq`.
-/

namespace Stencil

namespace DiskCache

variable {c : DiskCache} {key : String}

/-! ### Names of files -/

theorem fileName_injective {a b : String} (h : fileName a = fileName b) : a = b := by
  have hlist := congrArg String.toList h
  simp only [fileName, String.toList_append] at hlist
  exact String.toList_inj.1 (List.append_cancel_right hlist)

/-- A temporary name starts with a point, and a key does not. -/
theorem temporaryName_ne_fileName (c : DiskCache) (key : String) {other : String}
    (hother : isKey other = true) : c.temporaryName key ≠ fileName other := by
  intro h
  simp only [isKey, ne_eq, Bool.and_eq_true, decide_eq_true_eq, List.all_eq_true] at hother
  obtain ⟨hne, hchars⟩ := hother
  obtain ⟨first, rest, hfirst⟩ : ∃ first rest, other.toList = first :: rest :=
    List.exists_cons_of_ne_nil fun hnil => hne (String.toList_inj.1 hnil)
  have hlist := congrArg String.toList h
  simp only [temporaryName, fileName, String.toList_append, hfirst] at hlist
  obtain rfl : '.' = first := by simpa using congrArg List.head? hlist
  have hpoint := hchars '.' (by rw [hfirst]; exact .head _)
  exact absurd hpoint (by decide)

/-- The name of an entry leads to the file that has it. -/
theorem walk_fileName (hlong : FileTree.isLongName (fileName key) = false)
    (entries : Entries FileTree) :
    (FileTree.directory entries).walk [] [fileName key] =
      match entries.find? (fileName key) with
      | none => .error .missing
      | some child => .ok child := by
  have hne {name : String} (hname : name.length < 5) : fileName key ≠ name := by
    rintro rfl
    have hlength : (fileName key).length = key.length + 5 := String.length_append _ _
    omega
  have hempty := hne (show "".length < 5 by decide)
  have hpoint := hne (show ".".length < 5 by decide)
  have hpoints := hne (show "..".length < 5 by decide)
  cases hfind : entries.find? (fileName key) with
  | none => simp [FileTree.walk, hempty, hpoint, hpoints, hlong, hfind]
  | some child => simp [FileTree.walk, hempty, hpoint, hpoints, hlong, hfind]

/-! ### Reading and writing -/

/-- The files of a directory; where there is none yet, there are no files. -/
def files (c : DiskCache) : Entries FileTree :=
  match c.place with
  | some (.directory entries) => entries
  | _ => []

/-- What a cache answers is told by the file of the key. -/
theorem get_eq (hplace : c.place.getD (.directory []) = .directory c.files)
    (hkey : isKey key = true) (hlong : FileTree.isLongName (fileName key) = false) :
    c.get key =
      match c.files.find? (fileName key) with
      | none => .ok none
      | some (.text content) =>
        match Template.decode? content with
        | some t => .ok (some t)
        | none => .error (.cache key .entry)
      | some _ => .error (.cache key .entry) := by
  simp only [get, hkey, Bool.not_true, Bool.false_eq_true, if_false]
  cases hthere : c.place with
  | none =>
    have hfiles : c.files = [] := by simp [files, hthere]
    simp [hfiles, Entries.find?]
  | some place =>
    rw [hthere, Option.getD_some] at hplace
    subst hplace
    simp only [walk_fileName hlong]
    cases c.files.find? (fileName key) with
    | none => rfl
    | some file =>
      cases file with
      | text content => rfl
      | binary => rfl
      | directory entries => rfl

/-- Storing a tree enters its file. The temporary file is gone behind it, whether there has been a
file of the key or not. -/
theorem set_eq (hplace : c.place.getD (.directory []) = .directory c.files)
    (hkey : isKey key = true) (hlong : FileTree.isLongName (c.temporaryName key) = false)
    (hfresh : c.temporaryName key ∉ c.files.names)
    (hfile : ∀ entries, c.files.find? (fileName key) ≠ some (.directory entries)) (t : Template) :
    c.set key t = (.ok (), c.after (c.files.insert (fileName key) (.text t.encode))) := by
  have hne : fileName key ≠ c.temporaryName key := Ne.symm (temporaryName_ne_fileName c key hkey)
  have hwritten : writeFile (c.temporaryName key) t.encode c.files =
      .ok (c.files.insert (c.temporaryName key) (.text t.encode)) := by
    simp [writeFile, hlong, Entries.find?_eq_none_iff.2 hfresh]
  have hrenamed : rename (c.temporaryName key) (fileName key)
      (c.files.insert (c.temporaryName key) (.text t.encode)) =
      .ok (c.files.insert (fileName key) (.text t.encode)) := by
    rw [rename, Entries.find?_insert_self, Entries.find?_insert_of_ne hne,
      Entries.erase_insert hfresh]
    cases hfind : c.files.find? (fileName key) with
    | none => rfl
    | some file =>
      cases file with
      | text content => rfl
      | binary => rfl
      | directory entries => exact absurd hfind (hfile entries)
  simp only [set, hkey, Bool.not_true, Bool.false_eq_true, if_false, hplace, hwritten, hrenamed]

end DiskCache

end Stencil
