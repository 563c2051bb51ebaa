import Stencil.CommandLine
import Stencil.Proofs.Cache.Directory
import Stencil.Proofs.Engine.Sources

/-!
# Sessions with a cache in a directory

A cache in a directory outlives the engines and the processes that use it. As long as nothing else
writes into the directory, it is not noticed either, if JSON keeps the doubles of the trees.
A double beyond all bounds is not kept: there is no such number in JSON.

## Main definitions

* `CommandLine.Start` - a run of the program, with what it finds
* `CommandLine.runs` - the reports of runs one after another
* `CommandLine.runsSources` - the texts whose trees they ask for

Main statement: `DiskCache.unnoticed`.
-/

namespace Stencil

/-! ### Engines -/

/-- After any operations that start with an empty directory or none, the next one gives the answer
that the engines give without a cache. The engines may be the ones that have stored the trees, or
others that find them after the directory has been opened anew. -/
theorem Session.step_eq_uncached_of_disk {s : Session} {place : Option FileTree} {process : UInt32}
    (hplace : place.getD (.directory []) = .directory [])
    (hcache : s.cache = .disk ⟨place, 0, process.toNat⟩) (ops : List Operation) (op : Operation)
    (hkeeps : DiskCache.Keeps (s.sources (ops ++ [op]))) :
    ((s.after ops).step op).1 = ((s.after ops).uncached.step op).1 :=
  (step_eq_uncached (Cache.transparent_disk hkeeps)
    ⟨_, hcache, DiskCache.holds_empty _ hplace process⟩ ops op fun _ h => h).1

/-! ### The command line -/

theorem Cache.transparent_none (sources : List String) : Transparent sources (· = .none) where
  compile := by
    rintro _ source - rfl
    exact ⟨rfl, rfl⟩
  clear := by
    rintro _ rfl
    rfl
  reopen := by
    rintro process _ rfl
    rfl

namespace CommandLine

/-- A run of the program: the number of its process, its arguments, and what it finds apart from its
cache. -/
structure Start where
  process : UInt32
  arguments : Arguments
  found : Surroundings

namespace Start

/-- What a run does with a given tree in the place of its cache. -/
def run (place : Option FileTree) (start : Start) : Report × Cache :=
  CommandLine.run start.process.toNat start.arguments { start.found with cache := place }

/-- The report of a run without a cache. -/
def uncached (start : Start) : Report :=
  (CommandLine.run 0 { start.arguments with cacheDir := none } start.found).1

/-- The engine of a run. -/
def engine (place : Option FileTree) (start : Start) : Engine :=
  engineOf start.process.toNat start.arguments { start.found with cache := place }

/-- The texts whose trees a run asks for. -/
def sources (place : Option FileTree) (start : Start) : List String :=
  match start.found.template, readData start.arguments start.found with
  | some source, .ok value => ((start.engine place).lookups source value).map Render.Lookup.source
  | _, _ => []

end Start

/-- What is in the place of the cache behind a run; without a cache, what was there before. -/
def placeBehind (place : Option FileTree) : Cache → Option FileTree
  | .disk cache => cache.place
  | _ => place

/-- The reports of runs one after another. In the place of the cache each finds what the runs before
have left there. -/
def runs (place : Option FileTree) : List Start → List Report
  | [] => []
  | start :: later =>
    (start.run place).1 :: runs (placeBehind place (start.run place).2) later

/-- The texts whose trees the runs ask for. -/
def runsSources (place : Option FileTree) : List Start → List String
  | [] => []
  | start :: later =>
    start.sources place ++ runsSources (placeBehind place (start.run place).2) later

variable {used : List String} {place : Option FileTree}

/-- A tree in the place of a cache that any process can go on with. -/
def PlaceHolds (used : List String) (place : Option FileTree) : Prop :=
  ∀ process : UInt32, DiskCache.Holds used ⟨place, 0, process.toNat⟩

theorem Start.run_of_transparent {Valid : Cache → Prop}
    (htransparent : Cache.Transparent used Valid) {start : Start}
    (hvalid : Valid (start.engine place).cache)
    (hsources : ∀ source ∈ start.sources place, source ∈ used) :
    (start.run place).1 = start.uncached ∧ Valid (start.run place).2 := by
  obtain ⟨process, a, found⟩ := start
  -- Neither the directory nor the process makes any other difference to a run than its cache.
  have hdata : readData { a with cacheDir := none } found = readData a found := rfl
  have hengine : engineOf 0 { a with cacheDir := none } found =
      (engineOf process.toNat a { found with cache := place }).uncached := rfl
  have hdata' : readData a { found with cache := place } = readData a found := rfl
  simp only [Start.run, Start.uncached, CommandLine.run, hdata, hdata', hengine]
  simp only [Start.sources] at hsources
  cases htemplate : found.template with
  | none => exact ⟨rfl, hvalid⟩
  | some source =>
    cases hread : readData a found with
    | error report => exact ⟨rfl, hvalid⟩
    | ok value =>
      rw [htemplate, hread] at hsources
      have hlookups : ∀ l ∈ (Start.engine place ⟨process, a, found⟩).lookups source value,
          l.source ∈ used := fun l hl => hsources _ (List.mem_map_of_mem hl)
      obtain ⟨hresult, hvalid'⟩ := Engine.renderValue_uncached htransparent hvalid hlookups
      exact ⟨congrArg (reportOf a.template) hresult, hvalid'⟩

/-- A run reports what it does without a cache, and leaves a place that the next one can use. -/
theorem Start.run_eq_uncached (hkeeps : DiskCache.Keeps used) (hplace : PlaceHolds used place)
    {start : Start} (hsources : ∀ source ∈ start.sources place, source ∈ used) :
    (start.run place).1 = start.uncached ∧
      PlaceHolds used (placeBehind place (start.run place).2) := by
  cases hcacheDir : start.arguments.cacheDir with
  | none =>
    have hcache : (start.engine place).cache = .none := by
      simp [Start.engine, engineOf, hcacheDir]
    obtain ⟨hreport, hnone⟩ := run_of_transparent (Cache.transparent_none used) hcache hsources
    rw [hnone]
    exact ⟨hreport, hplace⟩
  | some dir =>
    have hcache : (start.engine place).cache = .disk ⟨place, 0, start.process.toNat⟩ := by
      simp [Start.engine, engineOf, hcacheDir]
    obtain ⟨hreport, d, hd, hholds⟩ := run_of_transparent (Cache.transparent_disk hkeeps)
      ⟨_, hcache, hplace start.process⟩ hsources
    rw [hd]
    exact ⟨hreport, hholds.reopen⟩

/-- Runs one after another that start with an empty directory for the cache, or none, all report
what they do without a cache. -/
theorem runs_eq_uncached (hkeeps : DiskCache.Keeps used) (hplace : PlaceHolds used place)
    {starts : List Start} (hsources : ∀ source ∈ runsSources place starts, source ∈ used) :
    runs place starts = starts.map Start.uncached := by
  induction starts generalizing place with
  | nil => rfl
  | cons start later ih =>
    obtain ⟨hreport, hnext⟩ := Start.run_eq_uncached hkeeps hplace
      fun source h => hsources source (List.mem_append_left _ h)
    have hlater := ih hnext fun source h => hsources source (List.mem_append_right _ h)
    rw [runs, hreport, hlater, List.map_cons]

/-- A run asks for its template, and for texts of its partials. -/
theorem Start.finds_of_mem_sources {start : Start} {source : String}
    (h : source ∈ start.sources place) :
    start.found.template = some source ∨ (start.engine none).renderEnv.partials.Finds source := by
  unfold Start.sources at h
  cases htemplate : start.found.template with
  | none =>
    rw [htemplate] at h
    cases h
  | some text =>
    cases hdata : readData start.arguments start.found with
    | error report =>
      rw [htemplate, hdata] at h
      cases h
    | ok value =>
      rw [htemplate, hdata] at h
      obtain ⟨l, hl, rfl⟩ := List.mem_map.1 h
      rcases Engine.finds_of_mem_lookups hl with ⟨template, hload, hsource⟩ | hpartial
      · -- The loader of templates takes the text itself for the name.
        obtain rfl := Except.ok.inj hload
        exact .inl (congrArg some hsource)
      · exact .inr hpartial

theorem finds_of_mem_runsSources {starts : List Start} {source : String}
    (h : source ∈ runsSources place starts) :
    ∃ start ∈ starts, start.found.template = some source ∨
      (start.engine none).renderEnv.partials.Finds source := by
  induction starts generalizing place with
  | nil => cases h
  | cons start later ih =>
    rcases List.mem_append.1 h with hfirst | hlater
    · exact ⟨start, .head _, Start.finds_of_mem_sources hfirst⟩
    · obtain ⟨other, hother, hfinds⟩ := ih hlater
      exact ⟨other, .tail _ hother, hfinds⟩

end CommandLine

/-! ### Both -/

theorem DiskCache.Keeps.mono {sources used : List String} (h : Keeps used)
    (hsub : ∀ source ∈ sources, source ∈ used) : Keeps sources where
  digest := h.digest.mono hsub
  length source hsource := h.length source (hsub source hsource)
  floats source hsource := h.floats source (hsub source hsource)

/-- **A cache in a directory is not noticed.** If a directory is empty at first, or there is none,
and nothing but engines writes into it, then any number of operations of engines that use it, and
any number of runs of the program one after another, give the answers that they give without
a cache. -/
theorem DiskCache.unnoticed {place : Option FileTree}
    (hplace : place.getD (.directory []) = .directory []) :
    (∀ (s : Session) (process : UInt32) (ops : List Operation) (op : Operation),
      s.cache = .disk ⟨place, 0, process.toNat⟩ → Keeps (s.sources (ops ++ [op])) →
        ((s.after ops).step op).1 = ((s.after ops).uncached.step op).1) ∧
      ∀ starts : List CommandLine.Start, Keeps (CommandLine.runsSources place starts) →
        CommandLine.runs place starts = starts.map CommandLine.Start.uncached := by
  refine ⟨fun s process ops op hcache hkeeps => ?_, fun starts hkeeps => ?_⟩
  · exact Session.step_eq_uncached_of_disk hplace hcache ops op hkeeps
  · exact CommandLine.runs_eq_uncached hkeeps (holds_empty _ hplace) fun _ h => h

/-- A template with a double and a partial, whose two trees are in the directory when it is opened
anew between two renders, and two runs of the program for it. -/
theorem DiskCache.unnoticed_reopen :
    let pot := "\x7b\x7bupper this\x7d\x7d"
    let source := "\x7b\x7bdefault null 0.5\x7d\x7d \x7b\x7b> pot \"tea\"\x7d\x7d"
    let s : Session := {
      loaders := fun _ => .table [("tea", source), ("pot", pot)]
      engines := [⟨0, none, Text.Html.escape, false⟩]
      helpers := Registry.builtin
      cache := .disk ⟨none, 0, (3 : UInt32).toNat⟩ }
    let render : Operation := .use 0 (.renderValue "tea" .null)
    let ops : List Operation := [render, .reopenCache 4]
    let arguments : Arguments :=
      { Arguments.ofTemplate "tea" with partials := some "pots", cacheDir := some "cache" }
    let pots : FileTree := .directory [("pot.hbs", .text pot)]
    let found : Surroundings := ⟨some source, none, some pots, none⟩
    let starts : List CommandLine.Start := [⟨5, arguments, found⟩, ⟨6, arguments, found⟩]
    let place := CommandLine.placeBehind none (s.after ops).cache
    place.map (·.files.length) = some 2 ∧
      ((s.after ops).step render).1 = ((s.after ops).uncached.step render).1 ∧
      ((s.after ops).step render).1.text? = some "0.5 TEA" ∧
      CommandLine.runs none starts = starts.map CommandLine.Start.uncached ∧
      (CommandLine.runs none starts).map Report.output = ["0.5 TEA", "0.5 TEA"] := by
  intro pot source s render ops arguments pots found starts place
  have hfloats : ∀ other ∈ [source, pot], ∀ t ∈ (Template.parse other).toOption,
      t.KeepsFloats := by decide +kernel
  have hkeeps : Keeps [source, pot] := by
    refine ⟨by decide +kernel, by decide, fun other hother t ht => ?_⟩
    exact hfloats other hother t (by simp [ht, Except.toOption])
  have hsession : ∀ other ∈ s.sources (ops ++ [render]), other ∈ [source, pot] := by
    intro other hother
    have hops : ∀ op ∈ ops ++ [render], op.EntersNoText := by
      simp [ops, render, Operation.EntersNoText]
    obtain ⟨i, hfinds⟩ := Session.exists_finds_of_mem_sources hops hother
    exact hfinds.mem_texts Loader.noConfusion
  have hruns : ∀ other ∈ CommandLine.runsSources none starts, other ∈ [source, pot] := by
    intro other hother
    let run (process : UInt32) : CommandLine.Start := ⟨process, arguments, found⟩
    have hrun (process : UInt32) (h : found.template = some other ∨
        ((run process).engine none).renderEnv.partials.Finds other) :
        other ∈ [source, pot] := by
      rcases h with htemplate | hpartial
      · obtain rfl := Option.some.inj htemplate
        exact .head _
      · have hpot : other ∈ [pot] := hpartial.mem_texts Loader.noConfusion
        exact .tail _ hpot
    obtain ⟨start, hstart, hfinds⟩ := CommandLine.finds_of_mem_runsSources hother
    simp only [starts, List.mem_cons, List.not_mem_nil, or_false] at hstart
    rcases hstart with rfl | rfl
    · exact hrun 5 hfinds
    · exact hrun 6 hfinds
  have hunnoticed := @unnoticed none rfl
  have hsame := hunnoticed.1 s 3 ops render rfl (hkeeps.mono hsession)
  have hreports := hunnoticed.2 starts (hkeeps.mono hruns)
  refine ⟨by decide +kernel, hsame, ?_, hreports, ?_⟩
  · rw [hsame]
    decide +kernel
  · rw [hreports]
    decide +kernel

/-- A number beyond the range of doubles is an infinity, which JSON writes as nothing: the first
render stores a tree that the second one cannot read. -/
theorem DiskCache.noticed_infinity :
    let source := "\x7b\x7bdefault null 1e999\x7d\x7d"
    let s : Session := {
      loaders := fun _ => .verbatim
      engines := [⟨0, none, Text.Html.escape, false⟩]
      helpers := Registry.builtin
      cache := .disk ⟨none, 0, 0⟩ }
    let render : Operation := .use 0 (.renderValue source .null)
    (s.step render).1.text? = some "inf" ∧
      ((s.after [render]).uncached.step render).1.text? = some "inf" ∧
      ((s.after [render]).step render).1.text? = none := by
  decide +kernel

end Stencil
