/-!
# Ordered entries

Tables from names to values that remember the order in which the names came in. A name that
is entered again keeps its place and gets the new value.

## Main definitions

* `Entries` - a list of names and values
* `Entries.find?`, `Entries.insert`, `Entries.erase` - look up, enter and remove a name
* `Entries.ofList` - enters the members of a list one after another
* `Entries.names`, `Entries.sortedNames` - the names in the order of entry, and sorted
-/

namespace Stencil

/-- Names and values in the order of entry. -/
abbrev Entries (β : Type) := List (String × β)

namespace Entries

variable {β : Type}

/-- The value of a name. -/
def find? (name : String) : Entries β → Option β
  | [] => none
  | (key, value) :: rest => if key = name then some value else find? name rest

/-- Enters a value under a name. A known name keeps its place. -/
def insert (name : String) (value : β) : Entries β → Entries β
  | [] => [(name, value)]
  | (key, old) :: rest =>
    if key = name then (key, value) :: rest else (key, old) :: insert name value rest

/-- Removes a name. -/
def erase (name : String) (entries : Entries β) : Entries β :=
  entries.filter fun entry => entry.1 ≠ name

/-- Enters the members of a list one after another. -/
def ofList (members : List (String × β)) : Entries β :=
  members.foldl (fun entries member => entries.insert member.1 member.2) []

/-- The names in the order of entry. -/
def names (entries : Entries β) : List String :=
  entries.map Prod.fst

/-- The names in the order of their characters' code points. -/
def sortedNames (entries : Entries β) : List String :=
  entries.names.mergeSort fun a b => a ≤ b

theorem mem_of_find? {name : String} {value : β} {entries : Entries β}
    (h : find? name entries = some value) : (name, value) ∈ entries := by
  induction entries with
  | nil => simp [find?] at h
  | cons entry rest ih =>
    obtain ⟨key, old⟩ := entry
    by_cases hkey : key = name
    · obtain rfl : old = value := by simpa [find?, hkey] using h
      simp [hkey]
    · exact .tail _ (ih (by simpa [find?, hkey] using h))

/-- What is in a table behind an entry: the entry, and nothing that was not there before. -/
theorem mem_insert {name : String} {value : β} {entries : Entries β} {entry : String × β}
    (h : entry ∈ insert name value entries) : entry = (name, value) ∨ entry ∈ entries := by
  induction entries with
  | nil => exact .inl (List.mem_singleton.1 h)
  | cons first rest ih =>
    obtain ⟨key, old⟩ := first
    by_cases hkey : key = name
    · subst hkey
      rw [insert, if_pos rfl] at h
      rcases List.mem_cons.1 h with hfirst | hrest
      · exact .inl hfirst
      · exact .inr (.tail _ hrest)
    · rw [insert, if_neg hkey] at h
      rcases List.mem_cons.1 h with rfl | hrest
      · exact .inr (.head _)
      · exact (ih hrest).imp_right fun hmem => .tail _ hmem

@[simp]
theorem find?_insert_self (name : String) (value : β) (entries : Entries β) :
    find? name (insert name value entries) = some value := by
  induction entries with
  | nil => simp [insert, find?]
  | cons entry rest ih =>
    obtain ⟨key, old⟩ := entry
    by_cases h : key = name <;> simp [insert, find?, h, ih]

theorem find?_insert_of_ne {name other : String} (h : other ≠ name) (value : β)
    (entries : Entries β) : find? other (insert name value entries) = find? other entries := by
  induction entries with
  | nil => simp [insert, find?, Ne.symm h]
  | cons entry rest ih =>
    obtain ⟨key, old⟩ := entry
    by_cases hk : key = name
    · subst hk
      simp [insert, find?, Ne.symm h]
    · simp only [insert, if_neg hk, find?, ih]

theorem find?_eq_none_iff {name : String} {entries : Entries β} :
    find? name entries = none ↔ name ∉ entries.names := by
  induction entries with
  | nil => simp [find?, names]
  | cons entry rest ih =>
    obtain ⟨key, old⟩ := entry
    by_cases hkey : key = name
    · simp [find?, names, hkey]
    · simpa [find?, names, hkey, Ne.symm hkey] using ih

/-- A name that is not in a table comes in behind all others. -/
theorem insert_of_not_mem {name : String} {entries : Entries β} (h : name ∉ entries.names)
    (value : β) : insert name value entries = entries ++ [(name, value)] := by
  induction entries with
  | nil => rfl
  | cons entry rest ih =>
    obtain ⟨key, old⟩ := entry
    obtain ⟨hkey, hrest⟩ : name ≠ key ∧ name ∉ names rest := by simpa [names] using h
    rw [insert, if_neg (Ne.symm hkey), ih hrest]
    rfl

/-- A name that is entered comes in behind all others, unless it is known. -/
theorem names_insert (name : String) (value : β) (entries : Entries β) :
    names (insert name value entries) =
      if name ∈ entries.names then entries.names else entries.names ++ [name] := by
  by_cases h : name ∈ entries.names
  · rw [if_pos h]
    induction entries with
    | nil => simp [names] at h
    | cons entry rest ih =>
      obtain ⟨key, old⟩ := entry
      by_cases hkey : key = name
      · rw [insert, if_pos hkey]
        rfl
      · have hrest : name ∈ names rest := by simpa [names, Ne.symm hkey] using h
        rw [insert, if_neg hkey]
        exact congrArg (key :: ·) (ih hrest)
  · rw [if_neg h, insert_of_not_mem h]
    simp [names]

theorem mem_names_insert {name other : String} {value : β} {entries : Entries β} :
    other ∈ names (insert name value entries) ↔ other = name ∨ other ∈ entries.names := by
  rw [names_insert]
  split
  · next hknown =>
    refine ⟨.inr, ?_⟩
    rintro (rfl | hmem)
    · exact hknown
    · exact hmem
  · rw [List.mem_append, List.mem_singleton, or_comm]

theorem nodup_names_insert {entries : Entries β} (h : entries.names.Nodup) (name : String)
    (value : β) : (names (insert name value entries)).Nodup := by
  rw [names_insert]
  split
  · exact h
  · next hnew =>
    rw [List.nodup_append]
    refine ⟨h, by simp, fun other hother last hlast => ?_⟩
    obtain rfl := List.mem_singleton.1 hlast
    rintro rfl
    exact hnew hother

/-- A name that is entered and removed leaves a table as it was. -/
theorem erase_insert {name : String} {entries : Entries β} (h : name ∉ entries.names) (value : β) :
    erase name (insert name value entries) = entries := by
  have hkeep : ∀ entry ∈ entries, entry.1 ≠ name := by
    rintro entry hentry rfl
    exact h (List.mem_map_of_mem hentry)
  rw [insert_of_not_mem h, erase, List.filter_append, List.filter_eq_self.2]
  · simp
  · simpa using hkeep

end Entries

end Stencil
