import Stencil.Cache

/-!
# Caches that nobody notices

A cache is transparent for some texts if each of them gets the tree from it that reading the text
gives. Here this is shown of caches in memory that start empty and are written only when a text is
compiled: what stands under the digest of a text is the tree of this text.

## Main definitions

* `Digest.Separates` - texts with different digests
* `Cache.clear`, `Cache.reopen` - what is done with a cache besides compiling
* `Cache.Transparent` - an invariant under which a cache is not noticed
* `MemoryCache.Holds` - the caches whose entries are trees of given texts
-/

namespace Stencil

/-- Different texts of a list have different digests. -/
def Digest.Separates (sources : List String) : Prop :=
  ∀ a ∈ sources, ∀ b ∈ sources, Digest.hex a = Digest.hex b → a = b

instance (sources : List String) : Decidable (Digest.Separates sources) :=
  inferInstanceAs (Decidable (∀ a ∈ sources, ∀ b ∈ sources, Digest.hex a = Digest.hex b → a = b))

theorem Digest.Separates.mono {sources more : List String} (h : Separates more)
    (hsub : ∀ source ∈ sources, source ∈ more) : Separates sources :=
  fun a ha b hb => h a (hsub a ha) b (hsub b hb)

namespace Cache

/-- A cache in memory without its entries; no other cache can be cleared. -/
def clear : Cache → Cache
  | .memory cache => .memory cache.clear
  | c => c

/-- A cache as it is opened anew: of a directory nothing but its files is left. -/
def reopen (process : UInt32) : Cache → Cache
  | .disk cache => .disk ⟨cache.place, 0, process.toNat⟩
  | c => c

/-- An invariant of caches under which each text of a list gets the tree that reading it gives. -/
structure Transparent (sources : List String) (Valid : Cache → Prop) : Prop where
  compile : ∀ c source, source ∈ sources → Valid c →
    (c.compile source).1 = Template.parse source ∧ Valid (c.compile source).2
  clear : ∀ c, Valid c → Valid c.clear
  reopen : ∀ process c, Valid c → Valid (c.reopen process)

end Cache

namespace MemoryCache

/-- A cache whose entries are trees of given texts under their digests. -/
def Holds (sources : List String) (c : MemoryCache) : Prop :=
  ∀ entry ∈ c.entries, ∃ source ∈ sources,
    entry.1 = Digest.hex source ∧ Template.parse source = .ok entry.2.2

variable {sources : List String} {c : MemoryCache} {source : String}

theorem holds_empty (sources : List String) : Holds sources empty :=
  fun _ h => nomatch h

/-- Where different texts have different digests, the tree under the digest of a text is the tree
of this text. -/
theorem Holds.parse_of_get (h : Holds sources c) (hdigest : Digest.Separates sources)
    (hsource : source ∈ sources) {t : Template} (hget : c.get (Digest.hex source) = some t) :
    Template.parse source = .ok t := by
  obtain ⟨entry, hfind, rfl⟩ := Option.map_eq_some_iff.1 hget
  obtain ⟨other, hother, hkey, htree⟩ := h _ (Entries.mem_of_find? hfind)
  obtain rfl : source = other := hdigest source hsource other hother hkey
  exact htree

theorem Holds.set (h : Holds sources c) (hsource : source ∈ sources) {t : Template}
    (htree : Template.parse source = .ok t) : Holds sources (c.set (Digest.hex source) t) := by
  intro entry hentry
  rcases Entries.mem_insert hentry with rfl | hold
  · exact ⟨source, hsource, rfl, htree⟩
  · exact h entry hold

end MemoryCache

namespace Cache

theorem compile_memory (c : MemoryCache) (source : String) :
    (Cache.memory c).compile source =
      match c.get (Digest.hex source) with
      | some t => (.ok t, .memory c)
      | Option.none =>
        match Template.parse source with
        | .error e => (.error e, .memory c)
        | .ok t => (.ok t, .memory (c.set (Digest.hex source) t)) := by
  simp only [compile, get]
  split
  · next heq => cases heq
  · next t heq => rw [Except.ok.inj heq]
  · next heq =>
    rw [Except.ok.inj heq]
    cases Template.parse source with
    | error e => rfl
    | ok t => rfl

theorem compile_memory_of_error {c : MemoryCache} {source : String} {e : Error}
    (h : ((Cache.memory c).compile source).1 = .error e) :
    ((Cache.memory c).compile source).2 = .memory c := by
  rw [compile_memory] at h ⊢
  cases hget : c.get (Digest.hex source) with
  | some t => rfl
  | none =>
    cases hparse : Template.parse source with
    | error e' => rfl
    | ok t =>
      rw [hget, hparse] at h
      cases h

theorem transparent_memory {sources : List String} (hdigest : Digest.Separates sources) :
    Transparent sources fun c => ∃ m, c = .memory m ∧ m.Holds sources where
  compile := by
    rintro _ source hsource ⟨m, rfl, hholds⟩
    rw [compile_memory]
    cases hget : m.get (Digest.hex source) with
    | some t => exact ⟨(hholds.parse_of_get hdigest hsource hget).symm, m, rfl, hholds⟩
    | none =>
      cases hparse : Template.parse source with
      | error e => exact ⟨rfl, m, rfl, hholds⟩
      | ok t => exact ⟨rfl, _, rfl, hholds.set hsource hparse⟩
  clear := by
    rintro _ ⟨m, rfl, -⟩
    exact ⟨m.clear, rfl, fun _ h => nomatch h⟩
  reopen := by
    rintro process _ ⟨m, rfl, hholds⟩
    exact ⟨m, rfl, hholds⟩

end Cache

end Stencil
