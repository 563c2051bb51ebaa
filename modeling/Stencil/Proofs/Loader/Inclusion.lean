import Mathlib.Data.Set.Finite.Basic
import Stencil.Loader
import Stencil.Proofs.Template.PartialNames

/-!
# Partials in partials

The text of a partial may have partials in it again. A loader finds only so many texts, or texts
that are getting shorter, so what a template reaches in this way is bounded unless some partial
reaches itself.

## Main definitions

* `Loader.Includes` - a partial in the text of another one
* `Template.Reaches` - the partials of a template, and those in their texts
* `Loader.texts` - the texts that a loader finds

Main statement: `Template.wellFounded_includes`.
-/

namespace Stencil

/-! ### The texts that a loader finds -/

namespace FileTree

/-- The texts in the files of a tree. -/
def texts (tree : FileTree) : List String :=
  tree.files.filterMap fun file =>
    match file.2 with
    | .text content => some content
    | _ => none

theorem texts_subset_of_mem {entries : List (String × FileTree)} {name : String}
    {child : FileTree} (h : (name, child) ∈ entries) : child.texts ⊆ (directory entries).texts := by
  intro content hcontent
  obtain ⟨⟨names, file⟩, hfile, htext⟩ := List.mem_filterMap.1 hcontent
  refine List.mem_filterMap.2 ⟨(name :: names, file), ?_, htext⟩
  show (name :: names, file) ∈ entriesFiles entries
  induction entries with
  | nil => cases h
  | cons first entries ih =>
    rw [entriesFiles, List.mem_append]
    rcases List.mem_cons.1 h with rfl | h
    · exact .inl (List.mem_map.2 ⟨(names, file), hfile, rfl⟩)
    · exact .inr (ih h)

/-- What names lead to is inside of the place from which they are followed, or of a directory
around it. -/
theorem texts_subset_of_walk {names : List String} {above : List FileTree} {here found : FileTree}
    (h : walk above here names = .ok found) :
    ∃ top ∈ here :: above, found.texts ⊆ top.texts := by
  induction names generalizing above here with
  | nil =>
    obtain rfl := Except.ok.inj h
    exact ⟨here, .head _, List.Subset.refl _⟩
  | cons name names ih =>
    cases here with
    | directory entries =>
      simp only [walk] at h
      split at h
      · exact ih h
      · split at h
        · cases above with
          | nil => cases h
          | cons parent above =>
            obtain ⟨top, htop, hsub⟩ := ih h
            exact ⟨top, .tail _ htop, hsub⟩
        · split at h
          · cases h
          · split at h
            · cases h
            · next child hchild =>
              have hinside := texts_subset_of_mem (Entries.mem_of_find? hchild)
              obtain ⟨top, htop, hsub⟩ := ih h
              rcases List.mem_cons.1 htop with rfl | htop
              · exact ⟨_, .head _, List.Subset.trans hsub hinside⟩
              · exact ⟨top, htop, hsub⟩
    | text content => cases h
    | binary => cases h

theorem mem_texts_of_readText {tree : FileTree} {path content : String}
    (h : tree.readText path = .ok content) : content ∈ tree.texts := by
  unfold readText at h
  split at h
  · cases h
  · next found hopen =>
    obtain rfl := Except.ok.inj h
    unfold open? at hopen
    split at hopen
    · cases hopen
    · obtain ⟨top, htop, hsub⟩ := texts_subset_of_walk hopen
      obtain rfl := List.mem_singleton.1 htop
      exact hsub (by simp [texts, files])
  · cases h

end FileTree

namespace Loader

/-- The texts that a loader finds under any names, unless the names themselves are the texts. -/
def texts : Loader → List String
  | .verbatim => []
  | .table templates => templates.map Prod.snd
  | .directory loader => loader.tree.texts

theorem mem_texts_of_load {partials : Loader} {name : String} {source : TemplateSource}
    (h : partials.load name = .ok source) :
    source.source ∈ partials.texts ∨ partials = .verbatim ∧ source.source = name := by
  cases partials with
  | verbatim =>
    obtain rfl := Except.ok.inj h
    exact .inr ⟨rfl, rfl⟩
  | table templates =>
    left
    simp only [load, TemplateTable.load] at h
    split at h
    · next text hfind =>
      obtain rfl := Except.ok.inj h
      exact List.mem_map.2 ⟨(name, text), Entries.mem_of_find? hfind, rfl⟩
    · cases h
  | directory loader =>
    left
    simp only [load, DirectoryLoader.load] at h
    split at h
    · cases h
    · split at h
      · next text hread =>
        obtain rfl := Except.ok.inj h
        exact FileTree.mem_texts_of_readText hread
      · cases h
      · cases h

/-! ### Inclusion -/

/-- In the text of a partial there is another partial, or the same one again. -/
def Includes (partials : Loader) (name name' : String) : Prop :=
  ∃ source t, partials.load name = .ok source ∧ Template.parse source.source = .ok t ∧
    name' ∈ t.partialNames

end Loader

namespace Template

variable {partials : Loader} {t : Template} {name : String}

/-- A partial is in a template, or in the text of a partial that the template reaches. -/
def Reaches (partials : Loader) (t : Template) (name : String) : Prop :=
  ∃ first ∈ t.partialNames, Relation.ReflTransGen partials.Includes first name

/-- The names of the partials in a text, if it has a tree. -/
def textPartialNames (text : String) : List String :=
  match parse text with
  | .ok t => t.partialNames
  | .error _ => []

theorem mem_of_reaches (h : t.Reaches partials name) (hloader : partials ≠ .verbatim) :
    name ∈ t.partialNames ++ partials.texts.flatMap textPartialNames := by
  obtain ⟨first, hfirst, hpath⟩ := h
  rcases hpath.cases_tail with rfl | ⟨last, -, source, tree, hload, hparse, hname⟩
  · exact List.mem_append_left _ hfirst
  · refine List.mem_append_right _ (List.mem_flatMap.2 ⟨source.source, ?_, ?_⟩)
    · exact (Loader.mem_texts_of_load hload).resolve_right fun h => hloader h.1
    · simpa only [textPartialNames, hparse] using hname

theorem Reaches.tail (h : t.Reaches partials name) {next : String}
    (hnext : partials.Includes name next) : t.Reaches partials next := by
  obtain ⟨first, hfirst, hpath⟩ := h
  exact ⟨first, hfirst, hpath.tail hnext⟩

/-- If no partial that a template reaches reaches itself, then partials do not lead to others
without end. -/
theorem wellFounded_includes
    (hacyclic : ∀ name, t.Reaches partials name → ¬ Relation.TransGen partials.Includes name name) :
    WellFounded fun inner outer : { name // t.Reaches partials name } =>
      partials.Includes outer inner := by
  by_cases hloader : partials = .verbatim
  · -- The texts are getting shorter.
    subst hloader
    refine Subrelation.wf ?_ (measure fun name : { name // t.Reaches .verbatim name } =>
      name.1.length).wf
    rintro inner outer ⟨source, tree, hload, hparse, hname⟩
    obtain rfl := Except.ok.inj hload
    exact length_lt_of_mem_partialNames hparse hname
  · -- There are only so many partials.
    have hfinite : Finite { name // t.Reaches partials name } :=
      Set.Finite.subset (List.finite_toSet _) fun name hname => mem_of_reaches hname hloader
    let Within (inner outer : { name // t.Reaches partials name }) : Prop :=
      Relation.TransGen partials.Includes outer.1 inner.1
    have htrans : IsTrans _ Within := ⟨fun _ _ _ hab hbc => hbc.trans hab⟩
    have hirrefl : Std.Irrefl Within := ⟨fun name => hacyclic name.1 name.2⟩
    have hwithin : WellFounded Within := Finite.wellFounded_of_trans_of_irrefl _
    exact Subrelation.wf (fun h => Relation.TransGen.single h) hwithin

end Template

end Stencil
