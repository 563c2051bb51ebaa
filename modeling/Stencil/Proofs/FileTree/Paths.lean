import Mathlib.Data.List.Basic
import Stencil.Loader

/-!
# Paths and where they lead

A path that is put behind another one leads on from the place to which the other one leads, as long
as it does not go up again.

## Main definitions

* `IsPlainPath` - the paths that consist of names only

Main statements: `forall_mem_pathParts_iff`, `FileTree.open?_joinPath`.
-/

namespace Stencil

/-! ### The pieces of a path -/

theorem Text.splitOn_eq_splitOnP (isMark : Char → Bool) (text : List Char) :
    Text.splitOn isMark text = text.splitOnP isMark := by
  induction text with
  | nil => rfl
  | cons c text ih =>
    rw [Text.splitOn, ih, List.splitOnP_cons_eq_if_modifyHead]
    cases hpieces : text.splitOnP isMark with
    | nil => exact absurd hpieces (List.splitOnP_ne_nil _ _)
    | cons piece pieces => rfl

theorem pathNames_eq (path : String) :
    pathNames path = (path.toList.splitOnP (· = '/')).map String.ofList := by
  rw [pathNames, Text.splitOn_eq_splitOnP]

theorem pathNames_ne_nil (path : String) : pathNames path ≠ [] := by
  rw [pathNames_eq]
  exact fun h => List.splitOnP_ne_nil _ _ (List.map_eq_nil_iff.1 h)

/-- A text without a slash is a single piece. -/
theorem pathNames_of_not_mem {name : String} (h : '/' ∉ name.toList) : pathNames name = [name] := by
  have hchars : ∀ c ∈ name.toList, decide (c = '/') = false := by
    intro c hc
    exact decide_eq_false fun hslash => h (hslash ▸ hc)
  rw [pathNames_eq, List.splitOnP_eq_singleton hchars, List.map_singleton, String.ofList_toList]

/-- The pieces around a slash are those in front of it and those behind it. -/
theorem pathNames_slash (front back : String) :
    pathNames (front ++ "/" ++ back) = pathNames front ++ pathNames back := by
  have hslash : (front ++ "/" ++ back).toList = front.toList ++ '/' :: back.toList := by
    simp [String.toList_append]
  have hsplit : (front.toList ++ '/' :: back.toList).splitOnP (· = '/') =
      front.toList.splitOnP (· = '/') ++ back.toList.splitOnP (· = '/') :=
    List.splitOnP_append_cons _ _ rfl
  rw [pathNames_eq, hslash, hsplit, List.map_append, ← pathNames_eq, ← pathNames_eq]

theorem splitOnP_append {α : Type} {p : α → Bool} (front : List α) {back : List α}
    (h : ∀ a ∈ back, p a = false) :
    ∃ init last, front.splitOnP p = init ++ [last] ∧
      (front ++ back).splitOnP p = init ++ [last ++ back] := by
  induction front with
  | nil => exact ⟨[], [], rfl, List.splitOnP_eq_singleton h⟩
  | cons a front ih =>
    obtain ⟨init, last, hfront, hboth⟩ := ih
    rw [List.cons_append, List.splitOnP_cons_eq_if_modifyHead,
      List.splitOnP_cons_eq_if_modifyHead, hfront, hboth]
    split
    · exact ⟨[] :: init, last, rfl, rfl⟩
    · cases init with
      | nil => exact ⟨[], a :: last, rfl, rfl⟩
      | cons first init => exact ⟨(a :: first) :: init, last, rfl, rfl⟩

/-- A text without a slash behind a path goes into its last piece. -/
theorem pathNames_append (front : String) {back : String} (h : '/' ∉ back.toList) :
    ∃ init last, pathNames front = init ++ [last] ∧
      pathNames (front ++ back) = init ++ [last ++ back] := by
  have hchars : ∀ c ∈ back.toList, decide (c = '/') = false := by
    intro c hc
    exact decide_eq_false fun hslash => h (hslash ▸ hc)
  obtain ⟨init, last, hfront, hboth⟩ := splitOnP_append front.toList hchars
  refine ⟨init.map String.ofList, String.ofList last, ?_, ?_⟩
  · rw [pathNames_eq, hfront, List.map_append, List.map_singleton]
  · rw [pathNames_eq, String.toList_append, hboth, List.map_append, List.map_singleton,
      String.ofList_append, String.ofList_toList]

/-- A path that starts with a slash has nothing in front of its first slash. -/
theorem head?_eq_slash_iff {path : String} :
    path.toList.head? = some '/' ↔ ∃ rest, rest ≠ [] ∧ pathNames path = "" :: rest := by
  rw [pathNames_eq]
  cases path.toList with
  | nil =>
    refine ⟨nofun, ?_⟩
    rintro ⟨rest, hrest, h⟩
    exact absurd (List.cons.inj h).2.symm hrest
  | cons c text =>
    rw [List.splitOnP_cons_eq_if_modifyHead, List.head?_cons, Option.some_inj]
    by_cases hslash : c = '/'
    · rw [if_pos (decide_eq_true hslash)]
      refine iff_of_true hslash ⟨_, ?_, rfl⟩
      exact fun h => List.splitOnP_ne_nil _ _ (List.map_eq_nil_iff.1 h)
    · rw [if_neg (by simpa using hslash)]
      refine iff_of_false hslash ?_
      rintro ⟨rest, -, h⟩
      cases hpieces : text.splitOnP (· = '/') with
      | nil => exact List.splitOnP_ne_nil _ _ hpieces
      | cons piece pieces =>
        rw [hpieces] at h
        have hfirst : String.ofList (c :: piece) = "" := (List.cons.inj h).1
        simpa using congrArg String.toList hfirst

/-! ### Plain paths -/

/-- The paths that consist of names only: they do not start at the root or with the current
directory, and do not go up. -/
structure IsPlainPath (path : String) : Prop where
  relative : path.toList.head? ≠ some '/'
  named : (pathNames path).head? ≠ some "."
  inside : ".." ∉ pathNames path

/-- The plain paths are those all of whose parts are names. -/
theorem forall_mem_pathParts_iff {path : String} :
    (∀ part ∈ pathParts path, ∃ name, part = .name name) ↔ IsPlainPath path := by
  have hpart (name : String) :
      (∃ n, (if name = ".." then PathPart.above else .name name) = .name n) ↔ ".." ≠ name := by
    by_cases h : name = ".."
    · simp [h]
    · simp [h, Ne.symm h]
  have hrest (rest : List String) : (∀ part ∈ (rest.filter fun name => name ≠ "" ∧ name ≠ ".").map
      (fun name => if name = ".." then PathPart.above else .name name), ∃ n, part = .name n) ↔
      ".." ∉ rest := by
    simp only [List.forall_mem_map, hpart, List.mem_filter, decide_eq_true_eq]
    constructor
    · exact fun h hmem => h ".." ⟨hmem, by decide⟩ rfl
    · rintro h name ⟨hname, -⟩ rfl
      exact h hname
  have hplain : IsPlainPath path ↔ ¬ path.toList.head? = some '/' ∧
      (pathNames path).head? ≠ some "." ∧ ".." ∉ pathNames path :=
    ⟨fun h => ⟨h.1, h.2, h.3⟩, fun h => ⟨h.1, h.2.1, h.2.2⟩⟩
  rw [hplain, head?_eq_slash_iff, pathParts]
  cases hnames : pathNames path with
  | nil => exact absurd hnames (pathNames_ne_nil path)
  | cons first rest =>
    simp only [List.forall_mem_append, hrest, List.head?_cons, List.mem_cons, not_or, ne_eq,
      Option.some_inj, List.cons.injEq]
    by_cases hempty : first = ""
    · subst hempty
      cases rest with
      | nil => simp
      | cons second rest => simp
    · by_cases hpoint : first = "."
      · simp [hpoint]
      · simp [hempty, hpoint, hpart, eq_comm]

/-! ### Joined paths -/

/-- What a path puts in front of others does not depend on them. -/
theorem exists_joinPath_eq (front : String) :
    ∃ between ∈ ["", "/"], ∀ back : String, back.toList.head? ≠ some '/' →
      joinPath front back = front ++ between ++ back := by
  by_cases hempty : front = ""
  · refine ⟨"", .head _, fun back hback => ?_⟩
    rw [joinPath, if_neg hback, if_pos hempty, hempty, String.empty_append, String.empty_append]
  · by_cases hslash : front.toList.getLast? = some '/'
    · refine ⟨"", .head _, fun back hback => ?_⟩
      rw [joinPath, if_neg hback, if_neg hempty, if_pos hslash, String.append_empty]
    · refine ⟨"/", .tail _ (.head _), fun back hback => ?_⟩
      rw [joinPath, if_neg hback, if_neg hempty, if_neg hslash]

/-! ### Following names -/

namespace FileTree

/-- Without a step up, the directories around a place do not matter. -/
theorem walk_of_not_mem {names : List String} (h : ".." ∉ names) (above above' : List FileTree)
    (here : FileTree) : walk above here names = walk above' here names := by
  induction names generalizing above above' here with
  | nil => rfl
  | cons name names ih =>
    obtain ⟨hname, hnames⟩ := not_or.1 (mt List.mem_cons.2 h)
    cases here with
    | text content => rfl
    | binary => rfl
    | directory entries =>
      simp only [walk, if_neg (Ne.symm hname), ih hnames above above']
      split
      · rfl
      · split
        · rfl
        · split
          · rfl
          · next child _ => exact ih hnames _ _ child

/-- Names that do not go up lead on from the place to which the names in front of them lead. -/
theorem walk_append (names : List String) {names' : List String} (h : ".." ∉ names')
    (above : List FileTree) (here : FileTree) :
    walk above here (names ++ names') =
      walk above here names >>= fun found => walk [] found names' := by
  induction names generalizing above here with
  | nil => exact walk_of_not_mem h above [] here
  | cons name names ih =>
    cases here with
    | text content => rfl
    | binary => rfl
    | directory entries =>
      simp only [List.cons_append, walk]
      split
      · exact ih above _
      · split
        · split
          · rfl
          · next parent above => exact ih above parent
        · split
          · rfl
          · split
            · rfl
            · next child _ => exact ih _ child

/-- An empty piece makes no difference in front of others. -/
theorem walk_empty_bind (above : List FileTree) (here : FileTree) {names : List String}
    (hne : names ≠ []) :
    (walk above here [""] >>= fun found => walk [] found names) = walk [] here names := by
  cases here with
  | directory entries => rfl
  | text content =>
    cases names with
    | nil => exact absurd rfl hne
    | cons name names => rfl
  | binary =>
    cases names with
    | nil => exact absurd rfl hne
    | cons name names => rfl

/-- A plain path behind another one leads on from where that one leads. -/
theorem walk_joinPath {root path : String} (h : IsPlainPath path) (tree : FileTree) :
    walk [] tree (pathNames (joinPath root path)) =
      walk [] tree (pathNames root) >>= fun found => walk [] found (pathNames path) := by
  have hne := pathNames_ne_nil path
  rw [joinPath, if_neg h.relative]
  by_cases hempty : root = ""
  · subst hempty
    exact (walk_empty_bind [] tree hne).symm
  · rw [if_neg hempty]
    by_cases hslash : root.toList.getLast? = some '/'
    · -- The slash at the end is a single piece without a name behind it.
      rw [if_pos hslash]
      obtain ⟨front, hfront⟩ := List.getLast?_eq_some_iff.1 hslash
      obtain rfl : root = String.ofList front ++ "/" := by
        rw [← String.toList_inj, hfront]
        simp
      have hroot : pathNames (String.ofList front ++ "/") =
          pathNames (String.ofList front) ++ [""] := by
        have h := pathNames_slash (String.ofList front) ""
        rwa [String.append_empty] at h
      rw [pathNames_slash, hroot, walk_append _ h.inside, walk_append _ (by decide), bind_assoc]
      simp only [walk_empty_bind [] _ hne]
    · rw [if_neg hslash, pathNames_slash, walk_append _ h.inside]

/-- What a plain path behind another one leads to, if it can be asked for. -/
theorem open?_joinPath {root path : String} (h : IsPlainPath path) (tree : FileTree) :
    tree.open? (joinPath root path) =
      if '\x00' ∈ (joinPath root path).toList ∨ 4096 ≤ (joinPath root path).utf8ByteSize then
        .error .unreadable
      else tree.open? root >>= fun found => walk [] found (pathNames path) := by
  obtain ⟨between, -, hjoin⟩ := exists_joinPath_eq root
  rw [open?, walk_joinPath h]
  split
  · rfl
  · next hfits =>
    -- What is in front fits if all of it does.
    have hroot : ¬ ('\x00' ∈ root.toList ∨ 4096 ≤ root.utf8ByteSize) := by
      rw [hjoin path h.relative, String.append_assoc, String.toList_append,
        String.utf8ByteSize_append] at hfits
      intro h
      exact hfits (h.imp (List.mem_append_left _) fun hlong => Nat.le_add_right_of_le hlong)
    rw [open?, if_neg hroot]

end FileTree

end Stencil
