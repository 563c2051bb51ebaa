import Stencil.Proofs.Cache.Files
import Stencil.Proofs.Cache.Transparent
import Stencil.Proofs.Number.Digits
import Stencil.Proofs.Template.Storable

/-!
# Caches in directories

A directory in which nothing but entries is ever put keeps the trees of texts as well as memory
does, if JSON keeps the doubles of the trees: the digests of the texts are keys, and no name is too
long.

## Main definitions

* `DiskCache.Keeps` - the texts whose trees a directory keeps
* `DiskCache.Holds` - the directories whose files are the stored trees of given texts

Main statement: `Cache.transparent_disk`.
-/

namespace Stencil

/-! ### Names of files -/

theorem utf8ByteSize_ofList {chars : List Char} (h : ∀ c ∈ chars, c.utf8Size = 1) :
    (String.ofList chars).utf8ByteSize = chars.length := by
  induction chars with
  | nil => rfl
  | cons c chars ih =>
    have hsplit : String.ofList (c :: chars) = String.singleton c ++ String.ofList chars := by
      rw [String.singleton_eq_ofList, ← String.ofList_append]
      rfl
    have hrest := ih fun d hd => h d (.tail _ hd)
    rw [hsplit, String.utf8ByteSize_append, String.utf8ByteSize_singleton, h c (.head _), hrest,
      List.length_cons, Nat.add_comm]

namespace Number

theorem length_digits_le {n k : Nat} (h : n < 10 ^ (k + 1)) : (digits n).length ≤ k + 1 := by
  induction k generalizing n with
  | zero =>
    have hn : n < 10 := by simpa using h
    rw [digits, if_pos hn]
    exact Nat.le_refl 1
  | succ k ih =>
    by_cases hn : n < 10
    · rw [digits, if_pos hn, List.length_singleton]
      omega
    · have hdiv : n / 10 < 10 ^ (k + 1) := by
        rw [Nat.pow_succ] at h
        omega
      rw [digits, if_neg hn, List.length_append, List.length_singleton]
      have := ih hdiv
      omega

theorem utf8ByteSize_natText_le {n k : Nat} (h : n < 10 ^ (k + 1)) :
    (natText n).utf8ByteSize ≤ k + 1 := by
  have hbyte : ∀ c ∈ digits n, c.utf8Size = 1 := by
    intro c hc
    have hdigit := isDigit_of_mem_digits hc
    simp only [isDigit, Bool.and_eq_true, decide_eq_true_eq] at hdigit
    exact Char.utf8Size_eq_one_iff.2 (Nat.le_trans hdigit.2 (by decide))
  rw [natText, utf8ByteSize_ofList hbyte]
  exact length_digits_le h

end Number

namespace Digest

theorem isAlphanum_hexDigit (n : UInt32) :
    (hexDigit n).isAlphanum = true ∧ (hexDigit n).utf8Size = 1 := by
  have hlt : (n &&& 0xf).toNat < 16 := by
    have : (n &&& 0xf).toNat ≤ 15 := by
      rw [UInt32.toNat_and]
      exact Nat.and_le_right
    omega
  have hall : ∀ m < 16,
      (if m < 10 then Char.ofNat (0x30 + m) else Char.ofNat (0x57 + m)).isAlphanum = true ∧
        (if m < 10 then Char.ofNat (0x30 + m) else Char.ofNat (0x57 + m)).utf8Size = 1 := by
    decide
  exact hall _ hlt

theorem mem_hex {w : Words} {c : Char} (h : c ∈ w.hex) : c.isAlphanum = true ∧ c.utf8Size = 1 := by
  obtain ⟨x, -, hx⟩ := List.mem_flatMap.1 h
  obtain ⟨shift, -, rfl⟩ := List.mem_map.1 hx
  exact isAlphanum_hexDigit _

theorem utf8ByteSize_hex (text : String) : (hex text).utf8ByteSize = 64 := by
  rw [hex, utf8ByteSize_ofList fun c hc => (mem_hex hc).2]
  rfl

/-- The words of a digest from a number in base 2 ^ 32. -/
def Words.ofNat (n : Nat) : Words :=
  ⟨.ofNat n, .ofNat (n / 2 ^ 32), .ofNat (n / 2 ^ 64), .ofNat (n / 2 ^ 96), .ofNat (n / 2 ^ 128),
    .ofNat (n / 2 ^ 160), .ofNat (n / 2 ^ 192), .ofNat (n / 2 ^ 224)⟩

theorem Words.exists_ofNat (w : Words) : ∃ n < 2 ^ 256, ofNat n = w := by
  obtain ⟨a, b, c, d, e, f, g, h⟩ := w
  have hword {n : Nat} {x : UInt32} (hn : n % 2 ^ 32 = x.toNat) : UInt32.ofNat n = x := by
    rw [← UInt32.toNat_inj, UInt32.toNat_ofNat', hn]
  have := a.toNat_lt
  have := b.toNat_lt
  have := c.toNat_lt
  have := d.toNat_lt
  have := e.toNat_lt
  have := f.toNat_lt
  have := g.toNat_lt
  have := h.toNat_lt
  refine ⟨a.toNat + b.toNat * 2 ^ 32 + c.toNat * 2 ^ 64 + d.toNat * 2 ^ 96 + e.toNat * 2 ^ 128 +
    f.toNat * 2 ^ 160 + g.toNat * 2 ^ 192 + h.toNat * 2 ^ 224, by omega, ?_⟩
  rw [ofNat, Words.mk.injEq]
  refine ⟨hword ?_, hword ?_, hword ?_, hword ?_, hword ?_, hword ?_, hword ?_, hword ?_⟩
  all_goals omega

end Digest

namespace DiskCache

theorem isKey_hex (text : String) : isKey (Digest.hex text) = true := by
  have hlength := Digest.utf8ByteSize_hex text
  have hne : Digest.hex text ≠ "" := by
    intro hempty
    rw [hempty] at hlength
    cases hlength
  have hchars : ∀ c ∈ (Digest.hex text).toList, c.isAlphanum = true := by
    intro c hc
    rw [Digest.hex, String.toList_ofList] at hc
    exact (Digest.mem_hex hc).1
  simp only [isKey, hne, ne_eq, not_false_eq_true, decide_true, Bool.true_and, List.all_eq_true]
  intro c hc
  simp [hchars c hc]

theorem not_isLongName_fileName (text : String) :
    FileTree.isLongName (fileName (Digest.hex text)) = false := by
  have hsize : (fileName (Digest.hex text)).utf8ByteSize = 69 := by
    rw [fileName, String.utf8ByteSize_append, Digest.utf8ByteSize_hex]
    rfl
  simp [FileTree.isLongName, hsize]

/-- A temporary name of an entry is short enough, since there are not more writings than digests. -/
theorem not_isLongName_temporaryName {c : DiskCache} (hprocess : c.process < 2 ^ 32)
    (hwrites : c.writes ≤ 2 ^ 256) (text : String) :
    FileTree.isLongName (c.temporaryName (Digest.hex text)) = false := by
  have hp : (Number.natText c.process).utf8ByteSize ≤ 10 :=
    Number.utf8ByteSize_natText_le (Nat.lt_trans hprocess (by decide))
  have hw : (Number.natText c.writes).utf8ByteSize ≤ 78 :=
    Number.utf8ByteSize_natText_le (Nat.lt_of_le_of_lt hwrites (by decide))
  have hmarks : ".".utf8ByteSize = 1 ∧ ".tmp".utf8ByteSize = 4 := ⟨rfl, rfl⟩
  simp only [FileTree.isLongName, temporaryName, String.utf8ByteSize_append,
    Digest.utf8ByteSize_hex, decide_eq_false_iff_not]
  omega

/-! ### Entries of a directory -/

/-- The texts whose trees a directory keeps: each has a digest of its own and a length that
a machine can hold, and JSON keeps the doubles of its tree. -/
structure Keeps (sources : List String) : Prop where
  digest : Digest.Separates sources
  length : ∀ source ∈ sources, source.length < 2 ^ 63
  floats : ∀ source ∈ sources, ∀ t, Template.parse source = .ok t → t.KeepsFloats

/-- A directory, or the place of one, whose files are stored trees of given texts under the names of
their digests. There have been no more writings than there are files, and the process has a number
of 32 bits. -/
structure Holds (sources : List String) (c : DiskCache) : Prop where
  place : c.place.getD (.directory []) = .directory c.files
  names : c.files.names.Nodup
  files : ∀ file ∈ c.files, ∃ source ∈ sources, ∃ t, file.1 = fileName (Digest.hex source) ∧
    Template.parse source = .ok t ∧ file.2 = .text t.encode
  writes : c.writes ≤ c.files.length
  process : c.process < 2 ^ 32

variable {sources : List String} {c : DiskCache} {source : String} {t : Template}

theorem holds_empty (sources : List String) {place : Option FileTree}
    (hplace : place.getD (.directory []) = .directory []) (process : UInt32) :
    Holds sources ⟨place, 0, process.toNat⟩ := by
  have hfiles : DiskCache.files ⟨place, 0, process.toNat⟩ = [] := by
    cases place with
    | none => rfl
    | some tree =>
      obtain rfl : tree = .directory [] := hplace
      rfl
  refine ⟨?_, ?_, ?_, Nat.zero_le _, process.toNat_lt⟩
  · rw [hfiles]
    exact hplace
  · rw [hfiles]
    exact .nil
  · rw [hfiles]
    exact fun _ h => nomatch h

/-- There are no more files than digests. -/
theorem Holds.length_files_le (h : Holds sources c) : c.files.length ≤ 2 ^ 256 := by
  -- All names that there can be, one for each digest as a number; this list is never computed.
  have hsub : c.files.names ⊆
      (List.range (2 ^ 256)).map fun n => fileName (String.ofList (Digest.Words.ofNat n).hex) := by
    intro name hname
    obtain ⟨file, hfile, rfl⟩ := List.mem_map.1 hname
    obtain ⟨source, -, -, hkey, -⟩ := h.files file hfile
    obtain ⟨n, hn, hwords⟩ := (Digest.words source.toUTF8.toList).exists_ofNat
    refine List.mem_map.2 ⟨n, List.mem_range.2 hn, ?_⟩
    rw [hkey, hwords, Digest.hex]
  have hlength := h.names.length_le_of_subset hsub
  rwa [Entries.names, List.length_map, List.length_map, List.length_range] at hlength

/-- Where the digests of the texts differ, the file of a text is its own stored tree. -/
theorem Holds.eq_of_find? (h : Holds sources c) (hdigest : Digest.Separates sources)
    (hsource : source ∈ sources) {file : FileTree}
    (hfind : c.files.find? (fileName (Digest.hex source)) = some file) :
    ∃ t, Template.parse source = .ok t ∧ file = .text t.encode := by
  obtain ⟨other, hother, t, hkey, hparse, htext⟩ := h.files _ (Entries.mem_of_find? hfind)
  obtain rfl : source = other := hdigest source hsource other hother (fileName_injective hkey)
  exact ⟨t, hparse, htext⟩

theorem Holds.temporaryName_not_mem (h : Holds sources c) (key : String) :
    c.temporaryName key ∉ c.files.names := by
  intro hmem
  obtain ⟨file, hfile, hname⟩ := List.mem_map.1 hmem
  obtain ⟨source, -, -, hkey, -⟩ := h.files file hfile
  exact temporaryName_ne_fileName c key (isKey_hex source) (hname.symm.trans hkey)

/-- Storing a tree for which there is no file yet puts a file behind the others. -/
theorem Holds.set_eq (h : Holds sources c)
    (hnone : fileName (Digest.hex source) ∉ c.files.names) (t : Template) :
    c.set (Digest.hex source) t =
      (.ok (), c.after (c.files ++ [(fileName (Digest.hex source), .text t.encode)])) := by
  have hwrites : c.writes ≤ 2 ^ 256 := Nat.le_trans h.writes h.length_files_le
  have hlong := not_isLongName_temporaryName h.process hwrites source
  have hfresh := h.temporaryName_not_mem (Digest.hex source)
  have hfile (entries : Entries FileTree) :
      c.files.find? (fileName (Digest.hex source)) ≠ some (.directory entries) := by
    simp [Entries.find?_eq_none_iff.2 hnone]
  rw [DiskCache.set_eq h.place (isKey_hex source) hlong hfresh hfile,
    Entries.insert_of_not_mem hnone]

theorem Holds.set (h : Holds sources c) (hsource : source ∈ sources)
    (hparse : Template.parse source = .ok t)
    (hnone : fileName (Digest.hex source) ∉ c.files.names) :
    Holds sources (c.after (c.files ++ [(fileName (Digest.hex source), .text t.encode)])) where
  place := rfl
  names := by
    show (Entries.names (c.files ++ [_])).Nodup
    rw [Entries.names, List.map_append, List.nodup_append]
    refine ⟨h.names, by simp, fun a ha b hb => ?_⟩
    obtain rfl : b = fileName (Digest.hex source) := by simpa using hb
    rintro rfl
    exact hnone ha
  files := by
    intro file hfile
    rcases List.mem_append.1 hfile with hold | hnew
    · exact h.files file hold
    · obtain rfl := List.mem_singleton.1 hnew
      exact ⟨source, hsource, t, rfl, hparse, rfl⟩
  writes := by
    show c.writes + 1 ≤ (c.files ++ [_]).length
    rw [List.length_append, List.length_singleton]
    have := h.writes
    omega
  process := h.process

theorem Holds.reopen (h : Holds sources c) (process : UInt32) :
    Holds sources ⟨c.place, 0, process.toNat⟩ :=
  ⟨h.place, h.names, h.files, Nat.zero_le _, process.toNat_lt⟩

end DiskCache

namespace Cache

theorem compile_disk (c : DiskCache) (source : String) :
    (Cache.disk c).compile source =
      match c.get (Digest.hex source) with
      | .error e => (.error e, .disk c)
      | .ok (some t) => (.ok t, .disk c)
      | .ok Option.none =>
        match Template.parse source with
        | .error e => (.error e, .disk c)
        | .ok t =>
          match c.set (Digest.hex source) t with
          | (.error e, c) => (.error e, .disk c)
          | (.ok (), c) => (.ok t, .disk c) := by
  simp only [compile, get, set]
  cases c.get (Digest.hex source) with
  | error e => rfl
  | ok found =>
    cases found with
    | some t => rfl
    | none =>
      cases Template.parse source with
      | error e => rfl
      | ok t =>
        dsimp only
        obtain ⟨_ | _, later⟩ := c.set (Digest.hex source) t
        · rfl
        · rfl

/-- Caches in directories that hold trees of the texts are transparent for them, if directories keep
these trees. -/
theorem transparent_disk {sources : List String} (hkeeps : DiskCache.Keeps sources) :
    Transparent sources fun c => ∃ d, c = .disk d ∧ d.Holds sources where
  compile := by
    rintro _ source hsource ⟨d, rfl, hholds⟩
    rw [compile_disk, DiskCache.get_eq hholds.place (DiskCache.isKey_hex source)
      (DiskCache.not_isLongName_fileName source)]
    cases hfind : d.files.find? (DiskCache.fileName (Digest.hex source)) with
    | some file =>
      obtain ⟨t, hparse, rfl⟩ := hholds.eq_of_find? hkeeps.digest hsource hfind
      have hstorable : t.IsStorable :=
        Template.isStorable_of_parse hparse (hkeeps.length source hsource)
          (hkeeps.floats source hsource t hparse)
      simp only [Template.decode?_encode hstorable, hparse]
      exact ⟨trivial, d, rfl, hholds⟩
    | none =>
      cases hparse : Template.parse source with
      | error e => exact ⟨rfl, d, rfl, hholds⟩
      | ok t =>
        have hnone := Entries.find?_eq_none_iff.1 hfind
        simp only [hholds.set_eq hnone t]
        exact ⟨trivial, _, rfl, hholds.set hsource hparse hnone⟩
  clear := by
    rintro _ ⟨d, rfl, hholds⟩
    exact ⟨d, rfl, hholds⟩
  reopen := by
    rintro process _ ⟨d, rfl, hholds⟩
    exact ⟨_, rfl, hholds.reopen process⟩

end Cache

end Stencil
