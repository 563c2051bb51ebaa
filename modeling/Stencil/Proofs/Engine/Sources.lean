import Stencil.Proofs.Engine.Session
import Stencil.Proofs.Loader.Inclusion

/-!
# The texts that engines ask for

An engine asks for the trees of texts that its loaders find, and for no others. What has to be known
about the texts of a session, or of a run of the program, can therefore be checked on its loaders.

## Main definitions

* `Loader.Finds` - a text that a loader finds under some name
* `Operation.EntersNoText` - operations that change no template and bring no text of their own

Main statements: `Session.exists_finds_of_mem_sources`, `Engine.finds_of_mem_lookups`.
-/

namespace Stencil

/-- A loader finds a text under some name. -/
def Loader.Finds (loader : Loader) (text : String) : Prop :=
  ∃ name source, loader.load name = .ok source ∧ source.source = text

/-- What a loader finds is one of its texts, unless every name is a text. -/
theorem Loader.Finds.mem_texts {loader : Loader} {text : String} (h : loader.Finds text)
    (hloader : loader ≠ .verbatim) : text ∈ loader.texts := by
  obtain ⟨name, source, hload, rfl⟩ := h
  exact (mem_texts_of_load hload).resolve_right fun hverbatim => hloader hverbatim.1

/-! ### Renders -/

namespace Render

variable {env : RenderEnv} {below : Nested} {levels : Nat} {body : List Node} {st : RenderState}
  {l : Lookup}

theorem finds_of_mem_nodeLookup? {n : Node} (h : l ∈ nodeLookup? env st n) :
    env.partials.Finds l.source := by
  cases n with
  | partialTag name context line =>
    simp only [nodeLookup?] at h
    cases hload : env.partials.load name with
    | error e =>
      rw [hload] at h
      cases h
    | ok source =>
      rw [hload] at h
      obtain rfl := Option.some.inj h
      exact ⟨name, source, hload, rfl⟩
  | text body => cases h
  | raw body => cases h
  | output call escaped => cases h
  | inline call => cases h
  | block call branches => cases h

theorem finds_of_mem_nodesLookups (h : l ∈ nodesLookups env below body st) :
    env.partials.Finds l.source := by
  induction body generalizing st with
  | nil => cases h
  | cons first rest ih =>
    rcases List.mem_append.1 h with hfirst | hrest
    · exact finds_of_mem_nodeLookup? (Option.mem_toList.1 hfirst)
    · split at hrest
      · exact ih hrest
      · cases hrest

/-- While nodes are rendered, no trees are asked for but those of partials. -/
theorem finds_of_mem_lookups (h : l ∈ lookups env levels body st) :
    env.partials.Finds l.source := by
  obtain ⟨v, -, hl⟩ := List.mem_flatMap.1 h
  exact finds_of_mem_nodesLookups hl

end Render

/-! ### Engines -/

/-- The texts of a render are that of the template and those of partials. -/
theorem Engine.finds_of_mem_lookups {e : Engine} {name : String} {data : Value} {l : Render.Lookup}
    (h : l ∈ e.lookups name data) :
    (∃ source, e.loader.load name = .ok source ∧ source.source = l.source) ∨
      e.renderEnv.partials.Finds l.source := by
  unfold Engine.lookups at h
  cases hload : e.loader.load name with
  | error error =>
    rw [hload] at h
    cases h
  | ok source =>
    rw [hload] at h
    rcases List.mem_cons.1 h with rfl | h
    · exact .inl ⟨source, rfl, rfl⟩
    · split at h
      · cases h
      · exact .inr (Render.finds_of_mem_lookups h)

/-! ### Sessions -/

/-- An operation that changes no template and brings no text to compile. -/
def Operation.EntersNoText : Operation → Prop
  | .use _ (.compile _) => False
  | .addTemplate _ _ _ => False
  | .setLoader _ _ => False
  | _ => True

namespace Session

variable {s : Session} {source : String}

/-- A render of an engine asks for texts of the session's loaders. -/
theorem exists_finds_of_mem_lookups {setup : Setup} {name : String} {data : Value}
    {l : Render.Lookup} (h : l ∈ (s.engine setup).lookups name data) :
    ∃ i, (s.loaders i).Finds l.source := by
  rcases Engine.finds_of_mem_lookups h with ⟨source, hload, hsource⟩ | hpartial
  · exact ⟨setup.loader, name, source, hload, hsource⟩
  · change ((setup.partials.map s.loaders).getD (s.loaders setup.loader)).Finds l.source at hpartial
    cases hpartials : setup.partials with
    | none =>
      rw [hpartials] at hpartial
      exact ⟨setup.loader, hpartial⟩
    | some partials =>
      rw [hpartials] at hpartial
      exact ⟨partials, hpartial⟩

theorem exists_finds_of_mem_stepSources {op : Operation} (hop : op.EntersNoText)
    (h : source ∈ s.stepSources op) : ∃ i, (s.loaders i).Finds source := by
  cases op with
  | use i u =>
    simp only [stepSources] at h
    cases hengine : s.engines[i]? with
    | none =>
      rw [hengine] at h
      cases h
    | some setup =>
      rw [hengine] at h
      obtain ⟨l, hl, rfl⟩ := List.mem_map.1 h
      cases u with
      | render name data =>
        simp only [Engine.useLookups] at hl
        split at hl
        · cases hl
        · exact exists_finds_of_mem_lookups hl
      | renderValue name data => exact exists_finds_of_mem_lookups hl
      | compile text => exact hop.elim
  | addTemplate loader name text => cases h
  | setLoader loader new => cases h
  | addHelper name helper => cases h
  | removeHelper name => cases h
  | clearCache => cases h
  | reopenCache process => cases h
  | addEngine setup => cases h

theorem loaders_step {op : Operation} (hop : op.EntersNoText) :
    (s.step op).2.loaders = s.loaders := by
  cases op with
  | use i u =>
    simp only [step]
    cases s.engines[i]? with
    | none => rfl
    | some setup => rfl
  | addTemplate loader name text => exact hop.elim
  | setLoader loader new => exact hop.elim
  | addHelper name helper => rfl
  | removeHelper name => rfl
  | clearCache => rfl
  | reopenCache process => rfl
  | addEngine setup => rfl

/-- As long as no text is entered, a session asks for texts of its loaders only. -/
theorem exists_finds_of_mem_sources {ops : List Operation} (hops : ∀ op ∈ ops, op.EntersNoText)
    (h : source ∈ s.sources ops) : ∃ i, (s.loaders i).Finds source := by
  induction ops generalizing s with
  | nil => cases h
  | cons op ops ih =>
    obtain ⟨hop, hops⟩ := List.forall_mem_cons.1 hops
    rcases List.mem_append.1 h with hfirst | hrest
    · exact exists_finds_of_mem_stepSources hop hfirst
    · obtain ⟨i, hfinds⟩ := ih hops hrest
      rw [loaders_step hop] at hfinds
      exact ⟨i, hfinds⟩

end Session

end Stencil
