import Mathlib.Data.List.TakeWhile
import Stencil.Proofs.FileTree.Files
import Stencil.Proofs.Loader.Confinement

/-!
# The two ways to read a directory

The templates of a directory can be read all at once, where each file gives a name, or one by one,
where each name gives a file. The two go together for all files but those whose name is one or two
points and the extension: such a file gets the name of the directory above, which no file is read
for, and of two such files in a directory only one is kept.

Main statement: `TemplateTable.ofDirectory_agrees`.
-/

namespace Stencil

/-! ### Extensions -/

/-- A text with a point in it is what is in front of the last point, the point and the rest. -/
theorem exists_eq_append_point {text after : List Char} (h : '.' ∈ text)
    (hafter : (text.reverse.takeWhile (· ≠ '.')).reverse = after) :
    text = text.take (text.length - after.length - 1) ++ '.' :: after := by
  obtain ⟨front, htext⟩ : ∃ front, text = front ++ '.' :: after := by
    have hparts : text.reverse.takeWhile (· ≠ '.') ++ text.reverse.dropWhile (· ≠ '.') =
        text.reverse := List.takeWhile_append_dropWhile
    cases hrest : text.reverse.dropWhile (· ≠ '.') with
    | nil =>
      have hall := List.dropWhile_eq_nil_iff.1 hrest '.' (List.mem_reverse.2 h)
      simp at hall
    | cons c rest =>
      have hc : c = '.' := by
        have hhead := List.head?_dropWhile_not (· ≠ '.') text.reverse
        rw [hrest] at hhead
        simpa using hhead
      refine ⟨rest.reverse, ?_⟩
      rw [hrest, hc] at hparts
      have hback := congrArg List.reverse hparts.symm
      rwa [List.reverse_append, hafter, List.reverse_cons, List.reverse_reverse, List.append_assoc,
        List.singleton_append] at hback
  have hlength : text.length - after.length - 1 = front.length := by
    rw [htext, List.length_append, List.length_cons]
    omega
  rw [hlength]
  conv_rhs => rw [htext, List.take_left]
  exact htext

/-- A name with an extension is what is in front of the last point, which is not nothing, the point
and the extension. -/
theorem splitExtension?_eq_some {name before after : String}
    (h : splitExtension? name = some (before, after)) :
    before ≠ "" ∧ name = before ++ ("." ++ after) := by
  unfold splitExtension? at h
  dsimp only at h
  split at h
  · cases h
  · next hsplit =>
    obtain ⟨hpoint, hbefore⟩ := not_or.1 hsplit
    obtain ⟨rfl, rfl⟩ := Prod.mk.inj (Option.some.inj h)
    refine ⟨fun h => hbefore (by simpa using congrArg String.toList h), ?_⟩
    simp only [← String.toList_inj, String.toList_append, String.toList_ofList]
    exact exists_eq_append_point (not_not.1 hpoint) rfl

namespace TemplateTable

/-- What is in front of the extension of a template's file, and the name that the file gives. -/
theorem exists_stem {extension last : String} (h : hasExtension extension last) :
    ∃ before, before ≠ "" ∧ last = before ++ ("." ++ extension) ∧
      stem last = if before = "." then ".." else before := by
  unfold hasExtension at h
  unfold stem
  cases hsplit : splitExtension? last with
  | none => simp [hsplit] at h
  | some parts =>
    obtain ⟨before, found⟩ := parts
    obtain rfl : found = extension := by simpa [hsplit] using h
    obtain ⟨hne, hlast⟩ := splitExtension?_eq_some hsplit
    exact ⟨before, hne, hlast, rfl⟩

theorem nameOfFile_append (init : List String) (last : String) :
    nameOfFile (init ++ [last]) = "/".intercalate (init ++ [stem last]) := by
  induction init with
  | nil => simp only [List.nil_append, nameOfFile, String.intercalate_singleton]
  | cons name init ih =>
    have hne (last : String) : init ++ [last] ≠ [] := by simp
    rw [List.cons_append, List.cons_append, String.intercalate_cons_of_ne_nil (hne _), ← ih,
      nameOfFile]
    exact hne _

section Names

variable {init : List String} {last extension : String}
  (hnames : ∀ name ∈ init ++ [last], IsFileName name) (hextension : hasExtension extension last)
include hnames hextension

theorem pathNames_nameOfFile : pathNames (nameOfFile (init ++ [last])) = init ++ [stem last] := by
  rw [nameOfFile_append]
  refine pathNames_intercalate (by simp) ?_
  simp only [List.forall_mem_append, List.forall_mem_singleton] at hnames ⊢
  refine ⟨fun name hname => (hnames.1 name hname).slash_not_mem, ?_⟩
  obtain ⟨before, -, hlast, hstem⟩ := exists_stem hextension
  rw [hstem]
  split
  · decide
  · have hslash := hnames.2.slash_not_mem
    rw [hlast, String.toList_append] at hslash
    exact fun h => hslash (List.mem_append_left _ h)

/-- A name that does not go up is plain, and leads to the file that it comes from. -/
theorem isPlainPath_nameOfFile (hup : ".." ∉ pathNames (nameOfFile (init ++ [last]))) :
    IsPlainPath (nameOfFile (init ++ [last])) ∧
      nameOfFile (init ++ [last]) ++ "." ++ extension = "/".intercalate (init ++ [last]) := by
  rw [pathNames_nameOfFile hnames hextension, List.mem_append, List.mem_singleton, not_or] at hup
  obtain ⟨before, hempty, hlast, hstem⟩ := exists_stem hextension
  have hpoint : before ≠ "." := by
    rintro rfl
    exact hup.2 hstem.symm
  rw [if_neg hpoint] at hstem
  rw [nameOfFile_append, hstem]
  rw [hstem] at hup
  simp only [List.forall_mem_append, List.forall_mem_singleton] at hnames
  obtain ⟨hinit, hname⟩ := hnames
  refine ⟨isPlainPath_intercalate (by simp) ?_, ?_⟩
  · rw [List.forall_mem_append, List.forall_mem_singleton]
    exact ⟨hinit, (hlast ▸ hname).front hempty hpoint (Ne.symm hup.2)⟩
  · rw [hlast, intercalate_append, String.append_assoc]

/-- A name goes up only if it comes from a file with one or two points in front of the extension. -/
theorem not_mem_pathNames_nameOfFile (hone : last ≠ ".." ++ extension)
    (htwo : last ≠ "..." ++ extension) : ".." ∉ pathNames (nameOfFile (init ++ [last])) := by
  rw [pathNames_nameOfFile hnames hextension, List.mem_append, List.mem_singleton, not_or]
  refine ⟨fun h => (hnames _ (List.mem_append_left _ h)).ne_points rfl, ?_⟩
  obtain ⟨before, -, hlast, hstem⟩ := exists_stem hextension
  rw [hstem]
  split
  · next hpoint =>
    refine absurd ?_ hone
    rw [hlast, hpoint, ← String.append_assoc]
    rfl
  · rintro rfl
    refine htwo ?_
    rw [hlast, ← String.append_assoc]
    rfl

end Names

/-! ### Tables of files -/

variable {tree : FileTree} {top shown dir extension : String} {templates table : TemplateTable}
  {files : List (List String)}

/-- Each template of a table has been there before, or is in one of the files. -/
theorem exists_file_of_mem {entry : String × String}
    (h : ofFiles tree shown dir extension templates files = .ok table) (hentry : entry ∈ table) :
    entry ∈ templates ∨
      ∃ names ∈ files, isTemplate dir extension names ∧ entry.1 = nameOfFile names ∧
        tree.open? (names.foldl joinPath dir) = .ok (.text entry.2) := by
  induction files generalizing templates with
  | nil =>
    obtain rfl := Except.ok.inj h
    exact .inl hentry
  | cons names files ih =>
    have hlater {templates : TemplateTable}
        (h : ofFiles tree shown dir extension templates files = .ok table) :
        entry ∈ templates ∨
          ∃ names' ∈ names :: files, isTemplate dir extension names' ∧
            entry.1 = nameOfFile names' ∧
            tree.open? (names'.foldl joinPath dir) = .ok (.text entry.2) :=
      (ih h).imp_right fun ⟨names', hmem, hfile⟩ => ⟨names', .tail _ hmem, hfile⟩
    rw [ofFiles] at h
    split at h
    · next htemplate =>
      split at h
      · next source hopen =>
        rcases hlater h with hbefore | hfile
        · rcases Entries.mem_insert hbefore with rfl | hbefore
          · exact .inr ⟨names, .head _, htemplate, rfl, hopen⟩
          · exact .inl hbefore
        · exact .inr hfile
      · cases h
      · exact hlater h
    · exact hlater h

/-- If all files are found under their paths and have different names, the table has the names of
all of them, in their order. -/
theorem names_ofFiles (h : ofFiles tree shown dir extension templates files = .ok table)
    (hfound : ∀ names ∈ files, isTemplate dir extension names →
      ∃ file, tree.open? (names.foldl joinPath dir) = .ok file ∧
        ∀ entries, file ≠ .directory entries)
    (hnodup : (Entries.names templates ++
      (files.filter (isTemplate dir extension)).map nameOfFile).Nodup) :
    Entries.names table = Entries.names templates ++
      (files.filter (isTemplate dir extension)).map nameOfFile := by
  induction files generalizing templates with
  | nil =>
    obtain rfl := Except.ok.inj h
    simp
  | cons names files ih =>
    obtain ⟨hfirst, hrest⟩ := List.forall_mem_cons.1 hfound
    rw [ofFiles] at h
    by_cases htemplate : isTemplate dir extension names
    · rw [if_pos htemplate] at h
      rw [List.filter_cons_of_pos htemplate, List.map_cons] at hnodup ⊢
      obtain ⟨file, hopen, hleaf⟩ := hfirst htemplate
      rw [hopen] at h
      cases file with
      | text source =>
        have hnew : nameOfFile names ∉ Entries.names templates := fun hmem =>
          (List.disjoint_of_nodup_append hnodup) hmem (.head _)
        have hnames : Entries.names (Entries.insert (nameOfFile names) source templates) =
            Entries.names templates ++ [nameOfFile names] := by
          rw [Entries.names_insert, if_neg hnew]
        rw [ih h hrest, hnames, List.append_assoc]
        · rfl
        · rwa [hnames, List.append_assoc]
      | binary => cases h
      | directory entries => exact absurd rfl (hleaf entries)
    · rw [if_neg htemplate] at h
      rw [List.filter_cons_of_neg htemplate] at hnodup ⊢
      exact ih h hrest hnodup

/-! ### Directories -/

theorem isTemplate_append (init : List String) (last : String) :
    isTemplate dir extension (init ++ [last]) = hasExtension extension last := by
  simp [isTemplate]

/-- A file in a directory has a last name, and is found by its names. -/
theorem exists_of_mem_files {entries : List (String × FileTree)} {names : List String}
    (hproper : (FileTree.directory entries).IsProper)
    (hnames : names ∈ (FileTree.directory entries).files.map Prod.fst) :
    ∃ init last file, names = init ++ [last] ∧ (∀ name ∈ names, IsFileName name) ∧
      FileTree.walk [] (.directory entries) names = .ok file ∧
      ∀ entries, file ≠ .directory entries := by
  obtain ⟨⟨_, file⟩, hfile, rfl⟩ := List.mem_map.1 hnames
  obtain ⟨hwalk, hpieces, hleaf⟩ := FileTree.walk_of_mem_files hproper hfile []
  obtain ⟨entry, -, rest, rfl, -⟩ := FileTree.mem_entriesFiles.1 hfile
  exact ⟨_, _, file, (List.dropLast_append_getLast (List.cons_ne_nil _ _)).symm, hpieces, hwalk,
    hleaf⟩

/-- The file of a template with more than two points in front of the extension, or with other
characters there: its name does not go up and tells which file it comes from, and the file is found
if its path is short enough. -/
theorem found_of_mem_files {entries : List (String × FileTree)} {names : List String}
    (hopen : tree.open? dir = .ok (.directory entries))
    (hproper : (FileTree.directory entries).IsProper)
    (hmem : names ∈ (FileTree.directory entries).files.map Prod.fst)
    (htemplate : isTemplate dir extension names)
    (hnames : names.getLast? ≠ some (".." ++ extension) ∧
      names.getLast? ≠ some ("..." ++ extension) ∧
      (names.foldl joinPath dir).utf8ByteSize < 4096) :
    ".." ∉ pathNames (nameOfFile names) ∧
      pathNames (nameOfFile names ++ "." ++ extension) = names ∧
      ∃ file, tree.open? (names.foldl joinPath dir) = .ok file ∧
        ∀ entries, file ≠ .directory entries := by
  obtain ⟨init, last, file, rfl, hpieces, hwalk, hleaf⟩ := exists_of_mem_files hproper hmem
  rw [isTemplate_append] at htemplate
  rw [List.getLast?_concat] at hnames
  obtain ⟨hone, htwo, hshort⟩ := hnames
  have hne : init ++ [last] ≠ [] := by simp
  have hup := not_mem_pathNames_nameOfFile hpieces htemplate (fun h => hone (congrArg some h))
    fun h => htwo (congrArg some h)
  refine ⟨hup, ?_, file, ?_, hleaf⟩
  · rw [(isPlainPath_nameOfFile hpieces htemplate hup).2]
    exact pathNames_intercalate hne fun name hname => (hpieces name hname).slash_not_mem
  · rw [FileTree.open?_foldl hopen hne hpieces hshort, hwalk]

/-- **The two ways to read a directory.** Let the templates of a directory be read all at once.
Then a template that is known by a name that does not go up is found by that name in its file, with
the same text, and one that is known by another name is not found. Such names come from files whose
name is one or two points and the extension. If there are no such files and all paths are short
enough, then no name goes up, and there are as many templates as files with the extension. -/
theorem ofDirectory_agrees {entries : List (String × FileTree)}
    (hopen : tree.open? dir = .ok (.directory entries))
    (hproper : (FileTree.directory entries).IsProper)
    (htable : ofDirectory tree top dir extension = .ok table) :
    (∀ name source, Entries.find? name table = some source →
      DirectoryLoader.load ⟨tree, dir, extension⟩ name =
        if ".." ∈ pathNames name then .error (.notFound name) else .ok ⟨name, source⟩) ∧
    let files := ((FileTree.directory entries).files.map Prod.fst).filter
      (isTemplate dir extension)
    (∀ names ∈ files, names.getLast? ≠ some (".." ++ extension) ∧
        names.getLast? ≠ some ("..." ++ extension) ∧
        (names.foldl joinPath dir).utf8ByteSize < 4096) →
      (∀ name ∈ Entries.names table, ".." ∉ pathNames name) ∧ table.length = files.length := by
  simp only [ofDirectory, hopen] at htable
  split at htable
  swap
  · cases htable
  constructor
  · intro name source hfind
    obtain hbefore | ⟨names, hmem, htemplate, hname, hread⟩ :=
      exists_file_of_mem htable (Entries.mem_of_find? hfind)
    · cases hbefore
    · obtain ⟨init, last, file, rfl, hpieces, -, -⟩ := exists_of_mem_files hproper hmem
      rw [isTemplate_append] at htemplate
      dsimp only at hname hread
      subst hname
      split
      · next hup => exact (DirectoryLoader.load_of_not_isPlainPath _ fun h => h.inside hup).2
      · next hup =>
        obtain ⟨hplain, hpath⟩ := isPlainPath_nameOfFile hpieces htemplate hup
        refine (DirectoryLoader.load_eq_ok hplain).2 ⟨rfl, ?_⟩
        rwa [hpath, ← foldl_joinPath (by simp) hpieces]
  · intro files hfiles
    have hfound : ∀ names ∈ files, _ := fun names hnames =>
      found_of_mem_files hopen hproper (List.mem_filter.1 hnames).1 (List.mem_filter.1 hnames).2
        (hfiles names hnames)
    have hnodup : (files.map nameOfFile).Nodup := by
      refine List.Nodup.map_on (fun names hnames names' hnames' hsame => ?_)
        ((FileTree.nodup_files hproper).filter _)
      rw [← (hfound names hnames).2.1, hsame, (hfound names' hnames').2.1]
    have hnames : Entries.names table = files.map nameOfFile :=
      names_ofFiles htable (fun names hmem htemplate =>
        (hfound names (List.mem_filter.2 ⟨hmem, htemplate⟩)).2.2) hnodup
    constructor
    · rw [hnames, List.forall_mem_map]
      exact fun names hmem => (hfound names hmem).1
    · simpa [Entries.names] using congrArg List.length hnames

/-- A file with two points in its name, and one in a directory below with points next to each
other. -/
theorem ofDirectory_agrees_below :
    let entries : List (String × FileTree) := [("a.b.hbs", .text "first"),
      ("sub", .directory [("c..hbs", .text "second"), ("notes.txt", .binary)])]
    let tree : FileTree := .directory [("t", .directory entries)]
    let table : TemplateTable := [("a.b", "first"), ("sub/c.", "second")]
    tree.open? "t" = .ok (.directory entries) ∧ (FileTree.directory entries).IsProper ∧
      ofDirectory tree "" "t" "hbs" = .ok table ∧
      DirectoryLoader.load ⟨tree, "t", "hbs"⟩ "sub/c." = .ok ⟨"sub/c.", "second"⟩ ∧
      (∀ name ∈ Entries.names table, ".." ∉ pathNames name) ∧ table.length = 2 := by
  intro entries tree table
  have hopen : tree.open? "t" = .ok (.directory entries) := rfl
  have hsub : FileTree.IsProper
      (.directory [("c..hbs", .text "second"), ("notes.txt", .binary)]) :=
    .directory (by decide) (by decide +kernel)
      (List.forall_mem_cons.2 ⟨.text _, List.forall_mem_singleton.2 .binary⟩)
  have hproper : (FileTree.directory entries).IsProper :=
    .directory (by decide) (by decide +kernel)
      (List.forall_mem_cons.2 ⟨.text _, List.forall_mem_singleton.2 hsub⟩)
  have htable : ofDirectory tree "" "t" "hbs" = .ok table :=
    toOption_eq_some.1 (by decide +kernel)
  obtain ⟨hload, hall⟩ := ofDirectory_agrees hopen hproper htable
  obtain ⟨hup, hlength⟩ := hall (by decide +kernel)
  exact ⟨hopen, hproper, htable, (hload "sub/c." "second" rfl).trans (if_neg (by decide +kernel)),
    hup, hlength⟩

/-- Two files with nothing but points in front of the extension: one of them is not kept, and the
other one is not found by its name. -/
theorem ofDirectory_points :
    let entries : List (String × FileTree) := [("..hbs", .text "one"), ("...hbs", .text "two")]
    let tree : FileTree := .directory [("t", .directory entries)]
    let table : TemplateTable := [("..", "two")]
    tree.open? "t" = .ok (.directory entries) ∧ (FileTree.directory entries).IsProper ∧
      ofDirectory tree "" "t" "hbs" = .ok table ∧ Entries.find? ".." table = some "two" ∧
      DirectoryLoader.load ⟨tree, "t", "hbs"⟩ ".." = .error (.notFound "..") ∧
      table.length = 1 ∧ (((FileTree.directory entries).files.map Prod.fst).filter
        (isTemplate "t" "hbs")).length = 2 := by
  intro entries tree table
  have hproper : (FileTree.directory entries).IsProper :=
    .directory (by decide) (by decide +kernel)
      (List.forall_mem_cons.2 ⟨.text _, List.forall_mem_singleton.2 (.text _)⟩)
  have htable : ofDirectory tree "" "t" "hbs" = .ok table :=
    toOption_eq_some.1 (by decide +kernel)
  have hload : DirectoryLoader.load ⟨tree, "t", "hbs"⟩ ".." = .error (.notFound "..") :=
    (DirectoryLoader.load_of_not_isPlainPath _ fun h => h.inside (by decide +kernel)).2
  exact ⟨rfl, hproper, htable, rfl, hload, rfl, by decide +kernel⟩

end TemplateTable

end Stencil
