import Mathlib.Data.List.Nodup
import Stencil.Proofs.FileTree.Paths

/-!
# The files of a tree

In a tree as file systems have them, each list of names of a file leads to that file, and no two
files have the same names. The path that is made from the names has these names as its pieces.

## Main definitions

* `IsFileName` - the names that files and directories can have
* `FileTree.IsProper` - the trees that file systems can have

Main statements: `FileTree.walk_of_mem_files`, `FileTree.nodup_files`, `foldl_joinPath`.
-/

namespace Stencil

/-- The names that files and directories can have. -/
structure IsFileName (name : String) : Prop where
  ne_empty : name ≠ ""
  ne_point : name ≠ "."
  ne_points : name ≠ ".."
  slash_not_mem : '/' ∉ name.toList
  null_not_mem : '\x00' ∉ name.toList
  short : FileTree.isLongName name = false

instance (name : String) : Decidable (IsFileName name) :=
  decidable_of_iff (name ≠ "" ∧ name ≠ "." ∧ name ≠ ".." ∧ '/' ∉ name.toList ∧
      '\x00' ∉ name.toList ∧ FileTree.isLongName name = false)
    ⟨fun ⟨hempty, hpoint, hpoints, hslash, hnull, hshort⟩ =>
        ⟨hempty, hpoint, hpoints, hslash, hnull, hshort⟩,
      fun h => ⟨h.ne_empty, h.ne_point, h.ne_points, h.slash_not_mem, h.null_not_mem, h.short⟩⟩

namespace IsFileName

variable {name : String}

/-- What is in front in a name is a name, too, unless it is nothing or consists of points. -/
theorem front {behind : String} (h : IsFileName (name ++ behind)) (hempty : name ≠ "")
    (hpoint : name ≠ ".") (hpoints : name ≠ "..") : IsFileName name := by
  have hchars {c : Char} (hc : c ∉ (name ++ behind).toList) : c ∉ name.toList := by
    rw [String.toList_append] at hc
    exact fun hmem => hc (List.mem_append_left _ hmem)
  have hshort := h.short
  simp only [FileTree.isLongName, String.utf8ByteSize_append, decide_eq_false_iff_not] at hshort
  refine ⟨hempty, hpoint, hpoints, hchars h.slash_not_mem, hchars h.null_not_mem, ?_⟩
  exact decide_eq_false (by omega)

theorem relative (h : IsFileName name) (behind : String) :
    (name ++ behind).toList.head? ≠ some '/' := by
  rw [String.toList_append]
  cases hchars : name.toList with
  | nil => exact absurd (String.toList_eq_nil_iff.1 hchars) h.ne_empty
  | cons c chars =>
    intro hslash
    obtain rfl := Option.some.inj hslash
    exact h.slash_not_mem (hchars ▸ List.mem_cons_self)

end IsFileName

/-! ### Paths of names -/

section Names

variable {names : List String}

theorem pathNames_intercalate (hne : names ≠ []) (h : ∀ name ∈ names, '/' ∉ name.toList) :
    pathNames ("/".intercalate names) = names := by
  induction names with
  | nil => exact absurd rfl hne
  | cons name names ih =>
    obtain ⟨hname, hnames⟩ := List.forall_mem_cons.1 h
    cases names with
    | nil => rw [String.intercalate_singleton, pathNames_of_not_mem hname]
    | cons second names =>
      rw [String.intercalate_cons_cons, pathNames_slash, pathNames_of_not_mem hname,
        ih (List.cons_ne_nil _ _) hnames]
      rfl

theorem isPlainPath_intercalate (hne : names ≠ []) (h : ∀ name ∈ names, IsFileName name) :
    IsPlainPath ("/".intercalate names) := by
  have hpieces := pathNames_intercalate hne fun name hname => (h name hname).slash_not_mem
  refine ⟨?_, ?_, ?_⟩
  · rw [Ne, head?_eq_slash_iff, hpieces]
    rintro ⟨rest, -, rfl⟩
    exact (h "" (.head _)).ne_empty rfl
  · rw [hpieces]
    exact fun hhead => (h "." (List.mem_of_mem_head? hhead)).ne_point rfl
  · rw [hpieces]
    exact fun hmem => (h ".." hmem).ne_points rfl

/-- What is put behind the last name is put behind all of them. -/
theorem intercalate_append (init : List String) (last behind : String) :
    "/".intercalate (init ++ [last ++ behind]) = "/".intercalate (init ++ [last]) ++ behind := by
  induction init with
  | nil => simp only [List.nil_append, String.intercalate_singleton]
  | cons name init ih =>
    have hne (last : String) : init ++ [last] ≠ [] := by simp
    rw [List.cons_append, List.cons_append, String.intercalate_cons_of_ne_nil (hne _),
      String.intercalate_cons_of_ne_nil (hne _), ih]
    exact String.append_assoc.symm

/-- The characters of a path of names are slashes, or in one of the names. -/
theorem mem_intercalate {c : Char} (hc : c ∈ ("/".intercalate names).toList) :
    c = '/' ∨ ∃ name ∈ names, c ∈ name.toList := by
  induction names with
  | nil => simp at hc
  | cons name names ih =>
    cases names with
    | nil =>
      rw [String.intercalate_singleton] at hc
      exact .inr ⟨name, .head _, hc⟩
    | cons second names =>
      simp only [String.intercalate_cons_cons, String.toList_append, List.mem_append] at hc
      rcases hc with (hc | hc) | hc
      · exact .inr ⟨name, .head _, hc⟩
      · exact .inl (List.mem_singleton.1 hc)
      · exact (ih hc).imp_right fun ⟨other, hother, hc⟩ => ⟨other, .tail _ hother, hc⟩

/-- A path behind two others. -/
theorem joinPath_joinPath {middle back : String} (hmiddle : IsFileName middle)
    (hback : IsPlainPath back) (front : String) :
    joinPath (joinPath front middle) back = joinPath front (middle ++ "/" ++ back) := by
  obtain ⟨between, -, hjoin⟩ := exists_joinPath_eq front
  have hfirst : joinPath front middle = front ++ between ++ middle := by
    refine hjoin middle ?_
    simpa using hmiddle.relative ""
  have hboth : joinPath front (middle ++ "/" ++ back) =
      front ++ between ++ (middle ++ "/" ++ back) := by
    refine hjoin _ ?_
    rw [String.append_assoc]
    exact hmiddle.relative _
  -- The path in the middle is not empty, and does not end with a slash.
  have hchars : middle.toList ≠ [] := fun h => hmiddle.ne_empty (String.toList_eq_nil_iff.1 h)
  have hempty : front ++ between ++ middle ≠ "" := by
    intro h
    have hlist := congrArg String.toList h
    simp [String.toList_append, hchars] at hlist
  have hlast : (front ++ between ++ middle).toList.getLast? ≠ some '/' := by
    rw [String.toList_append, List.getLast?_append_of_ne_nil _ hchars]
    exact fun h => hmiddle.slash_not_mem (List.mem_of_getLast? h)
  rw [hfirst, hboth, joinPath, if_neg hback.relative, if_neg hempty, if_neg hlast]
  simp only [String.append_assoc]

/-- Names one after another behind a path are the path of all of them behind it. -/
theorem foldl_joinPath (hne : names ≠ []) (h : ∀ name ∈ names, IsFileName name) (dir : String) :
    names.foldl joinPath dir = joinPath dir ("/".intercalate names) := by
  induction names generalizing dir with
  | nil => exact absurd rfl hne
  | cons name names ih =>
    obtain ⟨hname, hnames⟩ := List.forall_mem_cons.1 h
    cases names with
    | nil => rw [String.intercalate_singleton, List.foldl_cons, List.foldl_nil]
    | cons second names =>
      have hne := List.cons_ne_nil second names
      rw [String.intercalate_cons_cons, List.foldl_cons, ih hne hnames,
        joinPath_joinPath hname (isPlainPath_intercalate hne hnames)]

end Names

/-! ### Trees -/

theorem Entries.find?_of_mem {β : Type} {entries : Entries β} (h : entries.names.Nodup)
    {entry : String × β} (hentry : entry ∈ entries) : entries.find? entry.1 = some entry.2 := by
  induction entries with
  | nil => cases hentry
  | cons first entries ih =>
    obtain ⟨hfirst, hrest⟩ := List.nodup_cons.1 h
    rcases List.mem_cons.1 hentry with rfl | hentry
    · rw [find?, if_pos rfl]
    · have hne : first.1 ≠ entry.1 := fun heq => hfirst (heq ▸ List.mem_map_of_mem hentry)
      rw [find?, if_neg hne, ih hrest hentry]

namespace FileTree

/-- The trees that file systems can have: no name is twice in a directory. -/
inductive IsProper : FileTree → Prop where
  | text (content : String) : IsProper (.text content)
  | binary : IsProper .binary
  | directory {entries : List (String × FileTree)} (hnodup : (Entries.names entries).Nodup)
      (hnames : ∀ entry ∈ entries, IsFileName entry.1)
      (hentries : ∀ entry ∈ entries, IsProper entry.2) : IsProper (.directory entries)

theorem mem_entriesFiles {entries : List (String × FileTree)} {names : List String}
    {file : FileTree} :
    (names, file) ∈ entriesFiles entries ↔
      ∃ entry ∈ entries, ∃ rest, names = entry.1 :: rest ∧ (rest, file) ∈ entry.2.files := by
  induction entries with
  | nil => simp [entriesFiles]
  | cons first entries ih =>
    obtain ⟨name, child⟩ := first
    rw [entriesFiles, List.mem_append, ih, List.exists_mem_cons_iff]
    refine or_congr ?_ Iff.rfl
    simp only [List.mem_map, Prod.mk.injEq, Prod.exists]
    constructor
    · rintro ⟨rest, file', hfile, rfl, rfl⟩
      exact ⟨rest, rfl, hfile⟩
    · rintro ⟨rest, rfl, hfile⟩
      exact ⟨rest, file, hfile, rfl, rfl⟩

theorem map_fst_entriesFiles_cons (first : String × FileTree)
    (entries : List (String × FileTree)) :
    (entriesFiles (first :: entries)).map Prod.fst =
      (first.2.files.map Prod.fst).map (first.1 :: ·) ++ (entriesFiles entries).map Prod.fst := by
  rw [entriesFiles, List.map_append, List.map_map, List.map_map]
  rfl

/-- The names of a file lead to it. They are names of files and directories, and the file is no
directory. -/
theorem walk_of_mem_files {tree file : FileTree} {names : List String} (h : tree.IsProper)
    (hfile : (names, file) ∈ tree.files) (above : List FileTree) :
    walk above tree names = .ok file ∧ (∀ name ∈ names, IsFileName name) ∧
      ∀ entries, file ≠ .directory entries := by
  induction h generalizing names above with
  | text content =>
    obtain ⟨rfl, rfl⟩ := Prod.mk.inj (List.mem_singleton.1 hfile)
    exact ⟨rfl, nofun, nofun⟩
  | binary =>
    obtain ⟨rfl, rfl⟩ := Prod.mk.inj (List.mem_singleton.1 hfile)
    exact ⟨rfl, nofun, nofun⟩
  | @directory entries hnodup hnames _ ih =>
    obtain ⟨entry, hentry, rest, rfl, hrest⟩ := mem_entriesFiles.1 hfile
    have hname := hnames entry hentry
    obtain ⟨hwalk, hpieces, hleaf⟩ := ih entry hentry hrest (.directory entries :: above)
    refine ⟨?_, List.forall_mem_cons.2 ⟨hname, hpieces⟩, hleaf⟩
    have hlong : ¬ isLongName entry.1 = true := by rw [hname.short]; exact Bool.false_ne_true
    simp only [walk, if_neg (not_or.2 ⟨hname.ne_empty, hname.ne_point⟩), if_neg hname.ne_points,
      if_neg hlong, Entries.find?_of_mem hnodup hentry]
    exact hwalk

/-- The path of names behind a directory leads to where the names lead from there. -/
theorem open?_foldl {tree found : FileTree} {dir : String} {names : List String}
    (hopen : tree.open? dir = .ok found) (hne : names ≠ [])
    (hnames : ∀ name ∈ names, IsFileName name)
    (hshort : (names.foldl joinPath dir).utf8ByteSize < 4096) :
    tree.open? (names.foldl joinPath dir) = walk [] found names := by
  have hplain := isPlainPath_intercalate hne hnames
  have hdir : '\x00' ∉ dir.toList := by
    unfold open? at hopen
    split at hopen
    · cases hopen
    · next hfits => exact fun h => hfits (.inl h)
  rw [foldl_joinPath hne hnames] at hshort ⊢
  have hnull : '\x00' ∉ (joinPath dir ("/".intercalate names)).toList := by
    obtain ⟨between, hbetween, hjoin⟩ := exists_joinPath_eq dir
    rw [hjoin _ hplain.relative, String.toList_append, String.toList_append, List.mem_append,
      List.mem_append]
    rintro ((h | h) | h)
    · exact hdir h
    · rcases List.mem_pair.1 hbetween with rfl | rfl
      · simp at h
      · simp at h
    · obtain h | ⟨name, hname, h⟩ := mem_intercalate h
      · simp at h
      · exact (hnames name hname).null_not_mem h
  rw [open?_joinPath hplain, if_neg (not_or.2 ⟨hnull, Nat.not_le_of_lt hshort⟩), hopen,
    pathNames_intercalate hne fun name hname => (hnames name hname).slash_not_mem]
  rfl

/-- No two files have the same names. -/
theorem nodup_files {tree : FileTree} (h : tree.IsProper) : (tree.files.map Prod.fst).Nodup := by
  induction h with
  | text content => simp [files]
  | binary => simp [files]
  | @directory entries hnodup hnames hentries ih =>
    show ((entriesFiles entries).map Prod.fst).Nodup
    clear hnames hentries
    induction entries with
    | nil => exact List.nodup_nil
    | cons first entries ihentries =>
      obtain ⟨hfirst, hrest⟩ := List.nodup_cons.1 hnodup
      obtain ⟨hchild, hchildren⟩ := List.forall_mem_cons.1 ih
      rw [map_fst_entriesFiles_cons]
      refine (hchild.map List.cons_injective).append (ihentries hrest hchildren) ?_
      -- The names of the files below an entry start with its name, which no other entry has.
      intro names hone hother
      obtain ⟨rest, -, rfl⟩ := List.mem_map.1 hone
      obtain ⟨⟨names, file⟩, hfile, hnames⟩ := List.mem_map.1 hother
      obtain ⟨entry, hentry, rest', rfl, -⟩ := mem_entriesFiles.1 hfile
      have hsame : entry.1 = first.1 := (List.cons.inj hnames).1
      exact hfirst (hsame ▸ List.mem_map_of_mem hentry)

end FileTree

end Stencil
