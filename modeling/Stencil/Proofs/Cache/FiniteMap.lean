import Mathlib.Data.List.Induction
import Stencil.Proofs.Cache.Directory

/-!
# A cache in a directory is a finite map

Calls of a cache in a directory, in any order and with any keys, are answered as by a table in
memory, if the trees are read back as they have been stored and the file system takes the names of
the files. What is on the disk are the files of the keys that have been stored, and nothing else.

## Main definitions

* `DiskCache.Access`, `DiskCache.Answer` - the calls of a cache, and their answers
* `DiskCache.step`, `DiskCache.run` - a cache behind one call, and behind calls one after another
* `DiskCache.latest?` - the tree that has been stored last under a key
* `DiskCache.Access.expected` - the answer of a table
* `DiskCache.Mirrors` - the directories that hold the trees that calls have stored

Main statement: `DiskCache.finite_map`.
-/

namespace Stencil

namespace DiskCache

/-- A call of a cache. -/
inductive Access where
  | get (key : String)
  | set (key : String) (tree : Template)
  | contains (key : String)

/-- What a call answers. -/
inductive Answer where
  | tree (result : Except Error (Option Template))
  | stored (result : Except Error Unit)
  | found (result : Except Error Bool)

/-- The key of a call. -/
def Access.key : Access → String
  | .get key => key
  | .set key _ => key
  | .contains key => key

/-- The tree that a call stores under a key. -/
def Access.storedTree? (key : String) : Access → Option Template
  | .set other t => if other = key then some t else none
  | _ => none

/-- The answer to a call, and the cache behind it. -/
def step (c : DiskCache) : Access → Answer × DiskCache
  | .get key => (.tree (c.get key), c)
  | .set key t => (.stored (c.set key t).1, (c.set key t).2)
  | .contains key => (.found ((Cache.disk c).contains key), c)

/-- The cache behind calls one after another. -/
def run (c : DiskCache) (accesses : List Access) : DiskCache :=
  accesses.foldl (fun c access => (c.step access).2) c

/-- Whether the file system takes the names of the files that a call uses. -/
def takesNames (c : DiskCache) : Access → Bool
  | .get key => !FileTree.isLongName (fileName key)
  | .set key _ => !FileTree.isLongName (c.temporaryName key)
  | .contains key => !FileTree.isLongName (fileName key)

/-- Whether the file system takes the names of all files that calls use, one after another. Where
the key is refused there is no file. -/
def takesAll : DiskCache → List Access → Bool
  | _, [] => true
  | c, access :: later =>
    (!isKey access.key || c.takesNames access) && (c.step access).2.takesAll later

/-- The tree that calls have stored last under a key. -/
def latest? (accesses : List Access) (key : String) : Option Template :=
  accesses.reverse.findSome? (Access.storedTree? key)

/-- What there is to answer if the key of a call is accepted. -/
def checked {α : Type} (key : String) (answer : α) : Except Error α :=
  if isKey key then .ok answer else .error (.cache key .key)

/-- What a table answers that has the given trees. -/
def Access.expected (stored : String → Option Template) : Access → Answer
  | .get key => .tree (checked key (stored key))
  | .set key _ => .stored (checked key ())
  | .contains key => .found (checked key (stored key).isSome)

variable {c : DiskCache} {accesses : List Access} {access : Access} {key : String} {t : Template}

/-! ### Calls one after another -/

theorem run_concat (c : DiskCache) (accesses : List Access) (access : Access) :
    c.run (accesses ++ [access]) = ((c.run accesses).step access).2 := by
  rw [run, List.foldl_concat]
  rfl

theorem takesAll_concat (c : DiskCache) (accesses : List Access) (access : Access) :
    c.takesAll (accesses ++ [access]) =
      (c.takesAll accesses && (!isKey access.key || (c.run accesses).takesNames access)) := by
  induction accesses generalizing c with
  | nil => simp [takesAll, run]
  | cons first accesses ih =>
    rw [List.cons_append, takesAll, takesAll, ih, Bool.and_assoc]
    rfl

theorem latest?_concat (accesses : List Access) (access : Access) (key : String) :
    latest? (accesses ++ [access]) key =
      (access.storedTree? key).or (latest? accesses key) := by
  rw [latest?, List.reverse_concat, List.findSome?_cons]
  cases access.storedTree? key with
  | none => rfl
  | some t => rfl

theorem latest?_concat_of_ne {other : String} (h : other ≠ key) (accesses : List Access)
    (t : Template) : latest? (accesses ++ [.set other t]) key = latest? accesses key := by
  rw [latest?_concat, Access.storedTree?, if_neg h, Option.none_or]

theorem mem_of_latest? (h : latest? accesses key = some t) : .set key t ∈ accesses := by
  obtain ⟨access, hmem, hstored⟩ := List.exists_of_findSome?_eq_some h
  cases access with
  | get other => simp [Access.storedTree?] at hstored
  | contains other => simp [Access.storedTree?] at hstored
  | set other other' =>
    obtain ⟨rfl, rfl⟩ : other = key ∧ other' = t := by simpa [Access.storedTree?] using hstored
    exact List.mem_reverse.1 hmem

/-- A directory, or the place of one, that holds the trees that calls have stored: each tree that
has been stored last under a key that is accepted is in the file of the key, and there is no file
but those of such keys. -/
structure Mirrors (c : DiskCache) (accesses : List Access) : Prop where
  place : c.place.getD (.directory []) = .directory c.files
  nodup : c.files.names.Nodup
  contents : ∀ key, isKey key = true → c.files.find? (fileName key) =
    (latest? accesses key).map fun t => .text t.encode
  names : ∀ name ∈ c.files.names,
    ∃ key t, .set key t ∈ accesses ∧ isKey key = true ∧ name = fileName key

/-- There is nothing in a directory that has not been made yet. -/
theorem mirrors_nil (writes process : Nat) : Mirrors ⟨none, writes, process⟩ [] where
  place := rfl
  nodup := .nil
  contents _ _ := rfl
  names _ h := nomatch h

namespace Mirrors

theorem temporaryName_not_mem (h : Mirrors c accesses) (key : String) :
    c.temporaryName key ∉ c.files.names := by
  intro hmem
  obtain ⟨other, -, -, hkey, hname⟩ := h.names _ hmem
  exact temporaryName_ne_fileName c key hkey hname

theorem ne_directory (h : Mirrors c accesses) (hkey : isKey key = true)
    (entries : Entries FileTree) : c.files.find? (fileName key) ≠ some (.directory entries) := by
  rw [h.contents key hkey]
  cases latest? accesses key with
  | none => exact nofun
  | some t => exact nofun

theorem get_eq (h : Mirrors c accesses) (hkey : isKey key = true)
    (hlong : FileTree.isLongName (fileName key) = false)
    (hsurvives : ∀ t, .set key t ∈ accesses → Template.decode? t.encode = some t) :
    c.get key = .ok (latest? accesses key) := by
  rw [DiskCache.get_eq h.place hkey hlong, h.contents key hkey]
  cases hlatest : latest? accesses key with
  | none => rfl
  | some t => simp only [Option.map_some, hsurvives t (mem_of_latest? hlatest)]

theorem set_eq (h : Mirrors c accesses) (hkey : isKey key = true)
    (hlong : FileTree.isLongName (c.temporaryName key) = false) (t : Template) :
    c.set key t = (.ok (), c.after (c.files.insert (fileName key) (.text t.encode))) :=
  DiskCache.set_eq h.place hkey hlong (h.temporaryName_not_mem key) (h.ne_directory hkey) t

/-- Nothing is different behind a call that stores no tree. -/
theorem concat_of_not_stored (h : Mirrors c accesses)
    (hnone : ∀ key, isKey key = true → access.storedTree? key = none) :
    Mirrors c (accesses ++ [access]) where
  place := h.place
  nodup := h.nodup
  contents key hkey := by rw [h.contents key hkey, latest?_concat, hnone key hkey, Option.none_or]
  names name hname := by
    obtain ⟨key, t, hmem, hkey, hfile⟩ := h.names name hname
    exact ⟨key, t, List.mem_append_left _ hmem, hkey, hfile⟩

/-- The file of a tree that is stored comes in, or its content is replaced. -/
theorem concat_set (h : Mirrors c accesses) (hkey : isKey key = true) (t : Template) :
    Mirrors (c.after (c.files.insert (fileName key) (.text t.encode)))
      (accesses ++ [.set key t]) where
  place := rfl
  nodup := Entries.nodup_names_insert h.nodup _ _
  contents other hother := by
    show (c.files.insert (fileName key) _).find? (fileName other) = _
    by_cases hsame : key = other
    · subst hsame
      simp [latest?_concat, Access.storedTree?]
    · have hne : fileName other ≠ fileName key := fun heq => hsame (fileName_injective heq).symm
      rw [Entries.find?_insert_of_ne hne, h.contents other hother, latest?_concat_of_ne hsame]
  names name hname := by
    rcases Entries.mem_names_insert.1 hname with rfl | hname
    · exact ⟨key, t, by simp, hkey, rfl⟩
    · obtain ⟨other, t', hmem, hother, hfile⟩ := h.names name hname
      exact ⟨other, t', List.mem_append_left _ hmem, hother, hfile⟩

/-- One call: its answer is that of a table, and the directory mirrors the calls with this one. -/
theorem step (h : Mirrors c accesses)
    (hnames : isKey access.key = true → c.takesNames access = true)
    (hsurvives : ∀ key t, .set key t ∈ accesses → Template.decode? t.encode = some t) :
    (c.step access).1 = access.expected (latest? accesses) ∧
      Mirrors (c.step access).2 (accesses ++ [access]) := by
  cases access with
  | get key =>
    refine ⟨?_, h.concat_of_not_stored fun _ _ => rfl⟩
    cases hkey : isKey key with
    | false => simp [DiskCache.step, Access.expected, DiskCache.get, checked, hkey]
    | true =>
      have hlong : FileTree.isLongName (fileName key) = false := by
        simpa [takesNames] using hnames hkey
      simp [DiskCache.step, Access.expected, checked, hkey, h.get_eq hkey hlong (hsurvives key)]
  | contains key =>
    refine ⟨?_, h.concat_of_not_stored fun _ _ => rfl⟩
    cases hkey : isKey key with
    | false =>
      simp [DiskCache.step, Access.expected, Cache.contains, Cache.get, DiskCache.get, checked,
        hkey, Except.map]
    | true =>
      have hlong : FileTree.isLongName (fileName key) = false := by
        simpa [takesNames] using hnames hkey
      simp [DiskCache.step, Access.expected, Cache.contains, Cache.get, checked, hkey,
        h.get_eq hkey hlong (hsurvives key), Except.map]
  | set key t =>
    cases hkey : isKey key with
    | false =>
      have hset : c.set key t = (.error (.cache key .key), c) := by simp [DiskCache.set, hkey]
      have hnone : ∀ other, isKey other = true → (Access.set key t).storedTree? other = none := by
        intro other hother
        refine if_neg ?_
        rintro rfl
        simp [hkey] at hother
      simp only [DiskCache.step, hset]
      exact ⟨by simp [Access.expected, checked, hkey], h.concat_of_not_stored hnone⟩
    | true =>
      have hlong : FileTree.isLongName (c.temporaryName key) = false := by
        simpa [takesNames] using hnames hkey
      simp only [DiskCache.step, h.set_eq hkey hlong t]
      exact ⟨by simp [Access.expected, checked, hkey], h.concat_set hkey t⟩

/-- Calls one after another: the directory mirrors them. -/
theorem run (h : Mirrors c []) (hnames : c.takesAll accesses = true)
    (hsurvives : ∀ key t, .set key t ∈ accesses → Template.decode? t.encode = some t) :
    Mirrors (c.run accesses) accesses := by
  induction accesses using List.reverseRecOn with
  | nil => exact h
  | append_singleton accesses access ih =>
    rw [takesAll_concat, Bool.and_eq_true] at hnames
    have hbefore : ∀ key t, .set key t ∈ accesses → Template.decode? t.encode = some t :=
      fun key t hmem => hsurvives key t (List.mem_append_left _ hmem)
    rw [run_concat]
    have hlast : isKey access.key = true → (c.run accesses).takesNames access = true := by
      intro hkey
      simpa [hkey] using hnames.2
    exact ((ih hnames.1 hbefore).step hlast hbefore).2

/-- Each key that has been stored and is accepted has a file. -/
theorem fileName_mem (h : Mirrors c accesses) (hmem : .set key t ∈ accesses)
    (hkey : isKey key = true) : fileName key ∈ c.files.names := by
  by_contra hnone
  have hlatest : latest? accesses key = none := by
    simpa [h.contents key hkey] using Entries.find?_eq_none_iff.2 hnone
  have hstored := List.findSome?_eq_none_iff.1 hlatest (.set key t) (List.mem_reverse.2 hmem)
  simp [Access.storedTree?] at hstored

end Mirrors

/-- A call whose key is refused changes nothing. -/
theorem step_of_not_isKey (c : DiskCache) (h : isKey access.key = false) :
    (c.step access).2 = c := by
  cases access with
  | get key => rfl
  | contains key => rfl
  | set key t =>
    have hkey : isKey key = false := h
    simp [step, set, hkey]

/-- **A cache in a directory is a finite map.** Calls start where there is no directory yet, with
any counter of writings and any process. Then each call is answered as by a table of the trees that
have been stored last under their keys. A key that is refused is an error and changes nothing. The
files of the directory are at any time those of the keys that have been stored, one for each, so no
temporary file is left. The digest of a text is a key that is accepted. -/
theorem finite_map {writes process : Nat} {accesses : List Access} {access : Access}
    (hnames : takesAll ⟨none, writes, process⟩ (accesses ++ [access]) = true)
    (hsurvives : ∀ key t, .set key t ∈ accesses → Template.decode? t.encode = some t) :
    let c := run ⟨none, writes, process⟩ accesses
    (c.step access).1 = access.expected (latest? accesses) ∧
      (isKey access.key = false → (c.step access).2 = c) ∧
      (∃ files, (c.step access).2.place.getD (.directory []) = .directory files ∧
        (Entries.names files).Nodup ∧
        ∀ name, name ∈ Entries.names files ↔
          ∃ key t, .set key t ∈ accesses ++ [access] ∧ isKey key = true ∧ name = fileName key) ∧
      ∀ source, isKey (Digest.hex source) = true := by
  intro c
  rw [takesAll_concat, Bool.and_eq_true] at hnames
  have hbefore : Mirrors c accesses := (mirrors_nil writes process).run hnames.1 hsurvives
  have hlast : isKey access.key = true → c.takesNames access = true := by
    intro hkey
    simpa [hkey] using hnames.2
  obtain ⟨hanswer, hbehind⟩ := hbefore.step hlast hsurvives
  refine ⟨hanswer, step_of_not_isKey c, ⟨_, hbehind.place, hbehind.nodup, fun name => ?_⟩,
    isKey_hex⟩
  constructor
  · exact hbehind.names name
  · rintro ⟨key, t, hmem, hkey, rfl⟩
    exact hbehind.fileName_mem hmem hkey

/-- A key that is asked for before there is a directory, one that leads out of it, and one that is
stored twice. -/
theorem finite_map_overwrite :
    let old : Template := ⟨[.text "old"]⟩
    let new : Template := ⟨[.raw "new"]⟩
    let accesses : List Access :=
      [.get "k", .set "k" old, .set "../k" old, .set "a-Z_9" old, .set "k" new]
    let c := run ⟨none, 9, 7⟩ accesses
    takesAll ⟨none, 9, 7⟩ (accesses ++ [.get "k"]) = true ∧
      (∀ key t, .set key t ∈ accesses → Template.decode? t.encode = some t) ∧
      (c.step (.get "k")).1 = .tree (.ok (some new)) ∧
      ∃ files, c.place.getD (.directory []) = .directory files ∧
        (Entries.names files).Nodup ∧
        ∀ name, name ∈ Entries.names files ↔
          ∃ key t, .set key t ∈ accesses ++ [.get "k"] ∧ isKey key = true ∧
            name = fileName key := by
  intro old new accesses c
  have hnames : takesAll ⟨none, 9, 7⟩ (accesses ++ [.get "k"]) = true := by decide +kernel
  have hsurvives : ∀ key t, .set key t ∈ accesses → Template.decode? t.encode = some t := by
    intro key t hmem
    have htree : t = old ∨ t = new := by
      simp only [accesses, List.mem_cons, List.not_mem_nil, Access.set.injEq, reduceCtorEq] at hmem
      tauto
    refine Template.decode?_encode ?_
    rcases htree with rfl | rfl
    · decide
    · decide
  obtain ⟨hanswer, -, hfiles, -⟩ := finite_map hnames hsurvives
  exact ⟨hnames, hsurvives, hanswer, hfiles⟩

end DiskCache

end Stencil
