import Stencil.Proofs.FileTree.Paths
import Stencil.Proofs.Loader.Inclusion

/-!
# No template is read from outside of its directory

A loader that reads files checks the pieces of a name, and then opens a path that it makes from the
text of the name. Where the extension is more than points, this path is as plain as the name: the
text behind the name only goes into its last piece.

Main statement: `DirectoryLoader.confined`.
-/

namespace Stencil

/-- A point and an extension behind a plain path leave it plain, unless all of the extension is
points. -/
theorem IsPlainPath.extension {name extension : String} (h : IsPlainPath name)
    (hslash : '/' ∉ extension.toList) (hpoints : ∃ c ∈ extension.toList, c ≠ '.') :
    IsPlainPath (name ++ "." ++ extension) := by
  obtain ⟨c, hc, hpoint⟩ := hpoints
  have hne (front points : String) (h : ∀ d ∈ points.toList, d = '.') :
      front ++ ("." ++ extension) ≠ points := by
    rintro rfl
    refine hpoint (h c ?_)
    simp [String.toList_append, hc]
  have hback : '/' ∉ ("." ++ extension).toList := by
    simpa [String.toList_append] using hslash
  obtain ⟨init, last, hname, hfile⟩ := pathNames_append name hback
  rw [String.append_assoc]
  refine ⟨?_, ?_, ?_⟩
  · have hrelative := h.relative
    rw [String.toList_append]
    cases hchars : name.toList with
    | nil => simp [String.toList_append]
    | cons first chars => rwa [hchars] at hrelative
  · have hnamed := h.named
    rw [hfile]
    cases init with
    | nil =>
      exact fun h => hne last "." (by simp) (Option.some.inj h)
    | cons first init => rwa [hname] at hnamed
  · have hinside := h.inside
    rw [hname] at hinside
    rw [hfile, List.mem_append, List.mem_singleton]
    rintro (hinit | hlast)
    · exact hinside (List.mem_append_left _ hinit)
    · exact hne last ".." (by simp) hlast.symm

theorem FileTree.readText_eq_ok {tree : FileTree} {path content : String} :
    tree.readText path = .ok content ↔ tree.open? path = .ok (.text content) := by
  unfold readText
  cases tree.open? path with
  | error fault => simp
  | ok found =>
    cases found with
    | text text => simp
    | binary => simp
    | directory entries => simp

namespace DirectoryLoader

variable {loader : DirectoryLoader} {name : String}

theorem path?_eq (loader : DirectoryLoader) (name : String) [Decidable (IsPlainPath name)] :
    loader.path? name =
      if IsPlainPath name then some (joinPath loader.root (name ++ "." ++ loader.extension))
      else none := by
  refine if_congr ?_ rfl rfl
  rw [← forall_mem_pathParts_iff, List.all_eq_true]
  refine forall₂_congr fun part _ => ?_
  cases part with
  | name name => exact iff_of_true rfl ⟨name, rfl⟩
  | root => exact iff_of_false nofun nofun
  | here => exact iff_of_false nofun nofun
  | above => exact iff_of_false nofun nofun

/-- A file is opened for a plain name. -/
theorem path?_of_isPlainPath (h : IsPlainPath name) :
    loader.path? name = some (joinPath loader.root (name ++ "." ++ loader.extension)) := by
  classical
  rw [path?_eq, if_pos h]

/-- For any other name no file is opened. -/
theorem load_of_not_isPlainPath (loader : DirectoryLoader) (h : ¬ IsPlainPath name) :
    loader.path? name = none ∧ loader.load name = .error (.notFound name) := by
  classical
  have hpath : loader.path? name = none := by rw [path?_eq, if_neg h]
  refine ⟨hpath, ?_⟩
  rw [load, hpath]

/-- A template that is found has the text of its file. -/
theorem load_eq_ok {source : TemplateSource} (h : IsPlainPath name) :
    loader.load name = .ok source ↔
      source.name = name ∧ loader.tree.open? (joinPath loader.root
        (name ++ "." ++ loader.extension)) = .ok (.text source.source) := by
  simp only [load, path?_of_isPlainPath h, ← FileTree.readText_eq_ok]
  cases loader.tree.readText (joinPath loader.root (name ++ "." ++ loader.extension)) with
  | ok content =>
    obtain ⟨title, text⟩ := source
    simp [eq_comm]
  | error fault =>
    cases fault with
    | missing => simp
    | unreadable => simp

/-- **No template is read from outside of its directory.** Let the extension be without slashes and
more than points. Then for all names:

* if a file is opened, its path behind the directory consists of names only;
* a text that is read is that of a file in the directory, or in one of those below it;
* what comes of it depends on nothing in the tree but what the path of the directory leads to;
* nothing is opened, and the template is missing in every tree, if the name starts at the root or
  with the current directory, or goes up at any place. -/
theorem confined (loader : DirectoryLoader) (hslash : '/' ∉ loader.extension.toList)
    (hpoints : ∃ c ∈ loader.extension.toList, c ≠ '.') (name : String) :
    (∀ path, loader.path? name = some path →
      ∃ file, path = joinPath loader.root file ∧
        ∀ part ∈ pathParts file, ∃ piece, part = .name piece) ∧
    (∀ source, loader.load name = .ok source →
      ∃ found, loader.tree.open? loader.root = .ok found ∧ source.source ∈ found.texts) ∧
    (∀ tree, tree.open? loader.root = loader.tree.open? loader.root →
      load { loader with tree := tree } name = loader.load name) ∧
    (name.toList.head? = some '/' ∨ (pathNames name).head? = some "." ∨ ".." ∈ pathNames name →
      loader.path? name = none ∧
        ∀ tree, load { loader with tree := tree } name = .error (.notFound name)) := by
  by_cases hname : IsPlainPath name
  · have hfile := hname.extension hslash hpoints
    refine ⟨?_, ?_, ?_, ?_⟩
    · rintro path hpath
      rw [path?_of_isPlainPath hname] at hpath
      exact ⟨_, (Option.some.inj hpath).symm, forall_mem_pathParts_iff.2 hfile⟩
    · intro source hload
      have hopen := ((load_eq_ok hname).1 hload).2
      rw [FileTree.open?_joinPath hfile] at hopen
      split at hopen
      · cases hopen
      · obtain ⟨found, hfound, hwalk⟩ := bind_eq_ok.1 hopen
        refine ⟨found, hfound, ?_⟩
        obtain ⟨top, htop, hsub⟩ := FileTree.texts_subset_of_walk hwalk
        obtain rfl := List.mem_singleton.1 htop
        exact hsub (by simp [FileTree.texts, FileTree.files])
    · intro tree htree
      simp only [load, path?_of_isPlainPath hname, FileTree.readText,
        FileTree.open?_joinPath hfile, htree]
    · rintro (hrelative | hnamed | hinside)
      · exact absurd hrelative hname.relative
      · exact absurd hnamed hname.named
      · exact absurd hinside hname.inside
  · obtain ⟨hpath, hload⟩ := load_of_not_isPlainPath loader hname
    refine ⟨?_, ?_, ?_, ?_⟩
    · intro path h
      rw [hpath] at h
      cases h
    · intro source h
      rw [hload] at h
      cases h
    · intro tree _
      exact (load_of_not_isPlainPath _ hname).2.trans hload.symm
    · exact fun _ => ⟨hpath, fun tree => (load_of_not_isPlainPath _ hname).2⟩

/-- A name with a point behind its last slash, and one that leads to a file outside. -/
theorem confined_point :
    let loader : DirectoryLoader := ⟨.directory [("secret.hbs", .text "outside"),
      ("t", .directory [("a", .directory [("..hbs", .text "inside")])])], "t", "hbs"⟩
    '/' ∉ loader.extension.toList ∧ (∃ c ∈ loader.extension.toList, c ≠ '.') ∧
      loader.path? "a/." = some "t/a/..hbs" ∧
      (∃ file, "t/a/..hbs" = joinPath "t" file ∧
        ∀ part ∈ pathParts file, ∃ piece, part = .name piece) ∧
      (loader.load "a/.").toOption = some ⟨"a/.", "inside"⟩ ∧
      (loader.tree.readText "t/a/../../secret.hbs").toOption = some "outside" ∧
      loader.load "a/../../secret" = .error (.notFound "a/../../secret") := by
  intro loader
  have hslash : '/' ∉ loader.extension.toList := by decide
  have hpoints : ∃ c ∈ loader.extension.toList, c ≠ '.' := ⟨'h', by decide, by decide⟩
  have hpath : loader.path? "a/." = some "t/a/..hbs" := by decide +kernel
  have hup : ".." ∈ pathNames "a/../../secret" := by decide +kernel
  obtain ⟨hinside, -⟩ := confined loader hslash hpoints "a/."
  obtain ⟨-, -, -, houtside⟩ := confined loader hslash hpoints "a/../../secret"
  exact ⟨hslash, hpoints, hpath, hinside _ hpath, by decide +kernel, by decide +kernel,
    (houtside (.inr (.inr hup))).2 loader.tree⟩

end DirectoryLoader

end Stencil
