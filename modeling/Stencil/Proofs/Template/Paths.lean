import Stencil.Proofs.Template.Storable

/-!
# The paths in a tree

A tree names values by paths: in the heads of its tags, in their arguments, in the conditions of
branches and in the contexts of partials. All of them have been read from words of the text, and
this decides about their segments.

## Main definitions

* `Param.paths`, `Call.paths`, `Template.paths` - the paths in arguments, in tags and in trees
* `Path.IsWellFormed` - the paths that can be written

Main statements: `Path.isWellFormed_of_parse`, `Param.isWellFormed_of_parse`,
`Call.isWellFormed_of_ofTag`.
-/

namespace Stencil

open Text

/-- The path in an operand, if it is one. -/
def Operand.paths : Operand → List Path
  | .path p => [p]
  | _ => []

/-- The paths in a comparison. -/
def Comparison.paths (c : Comparison) : List Path :=
  c.left.paths ++ c.right.paths

/-- The paths in an argument. -/
def Param.paths : Param → List Path
  | .path p => [p]
  | .literal _ => []
  | .comparison c => c.paths

/-- The paths in the head of a tag: its name, and those in its arguments. -/
def Call.paths (call : Call) : List Path :=
  call.path :: call.arguments.flatMap Param.paths

mutual

/-- The paths in a node, and inside of it. -/
def Node.paths : Node → List Path
  | .text _ => []
  | .raw _ => []
  | .output call _ => call.paths
  | .inline call => call.paths
  | .block call branches => call.paths ++ branchesPaths branches
  | .partialTag _ context _ => context.toList.flatMap Param.paths

/-- The paths in nodes. -/
def nodesPaths : List Node → List Path
  | [] => []
  | n :: body => n.paths ++ nodesPaths body

/-- The paths in branches: those in their conditions, and those in their bodies. -/
def branchesPaths : List (Branch Node) → List Path
  | [] => []
  | ⟨condition, body⟩ :: branches =>
    condition.toList.flatMap Param.paths ++ nodesPaths body ++ branchesPaths branches

end

/-- The paths in a tree. -/
def Template.paths (t : Template) : List Path :=
  nodesPaths t.nodes

theorem mem_nodesPaths_of_mem {n : Node} {body : List Node} {p : Path} (hn : n ∈ body)
    (hp : p ∈ n.paths) : p ∈ nodesPaths body := by
  induction body with
  | nil => cases hn
  | cons first body ih =>
    rw [nodesPaths, List.mem_append]
    rcases List.mem_cons.1 hn with rfl | hn
    · exact .inl hp
    · exact .inr (ih hn)

theorem mem_branchesPaths_of_mem {branch : Branch Node} {branches : List (Branch Node)} {p : Path}
    (hbranch : branch ∈ branches)
    (hp : p ∈ branch.condition.toList.flatMap Param.paths ∨ p ∈ nodesPaths branch.body) :
    p ∈ branchesPaths branches := by
  induction branches with
  | nil => cases hbranch
  | cons first branches ih =>
    rw [branchesPaths, List.mem_append, List.mem_append]
    rcases List.mem_cons.1 hbranch with rfl | hbranch
    · exact .inl hp
    · exact .inr (ih hbranch)

/-! ### Segments -/

namespace Path

/-- The characters of segments: no blanks, no separators and no reserved characters. -/
def isSegmentChar (c : Char) : Bool :=
  !isBlank c && c ≠ '.' && c ≠ '/' && c ∉ reserved

/-- A path that can be written: its segments have characters, and such as can stand in them, and the
mark of data variables stands in front of a name. -/
structure IsWellFormed (p : Path) : Prop where
  segments : ∀ segment ∈ p.segments, segment ≠ "" ∧ ∀ c ∈ segment.toList, isSegmentChar c
  data : p.data → p.segments ≠ []

theorem checkSegments_eq_ok {segments : List (List Char)} :
    checkSegments segments = .ok () ↔
      ∀ segment ∈ segments, segment ≠ [] ∧ ∀ c ∈ segment, ¬ isBlank c ∧ c ∉ reserved := by
  induction segments with
  | nil => simp [checkSegments]
  | cons segment segments ih =>
    rw [checkSegments, List.forall_mem_cons, ← ih]
    by_cases hnil : segment = []
    · simp [hnil]
    · by_cases hchar : segment.any fun c => isBlank c || c ∈ reserved
      · rw [if_neg hnil, if_pos hchar]
        simp only [reduceCtorEq, false_iff, not_and]
        rintro ⟨-, hall⟩
        simp only [List.any_eq_true, Bool.or_eq_true, decide_eq_true_eq] at hchar
        obtain ⟨c, hc, hchar⟩ := hchar
        exact absurd hchar (not_or.2 (hall c hc))
      · rw [if_neg hnil, if_neg hchar]
        have hall : ∀ c ∈ segment, ¬ isBlank c ∧ c ∉ reserved := by simpa using hchar
        exact (and_iff_right ⟨hnil, hall⟩).symm

/-- The pieces between the separators are segments, if they pass the check. -/
theorem segments_of_readSegments {text : List Char} {segments : List String}
    (h : readSegments text = .ok segments) :
    ∀ segment ∈ segments, segment ≠ "" ∧ ∀ c ∈ segment.toList, isSegmentChar c := by
  obtain ⟨⟨⟩, hcheck, h⟩ := bind_eq_ok.1 h
  obtain rfl := Except.ok.inj h
  intro segment hsegment
  obtain ⟨piece, hpiece, rfl⟩ := List.mem_map.1 hsegment
  obtain ⟨hne, hchars⟩ := checkSegments_eq_ok.1 hcheck piece hpiece
  refine ⟨by simpa using hne, ?_⟩
  rw [String.toList_ofList]
  intro c hc
  have hmark : (c = '.' || c = '/') = false := by
    split at hpiece
    · cases hpiece
    · exact not_isMark_of_mem_splitOn hpiece c hc
  obtain ⟨hblank, hreserved⟩ := hchars c hc
  simp only [Bool.or_eq_false_iff, decide_eq_false_iff_not] at hmark
  simp [isSegmentChar, hblank, hreserved, hmark]

theorem isWellFormed_of_read {text : List Char} {p : Path} (h : read text = .ok p) :
    p.IsWellFormed := by
  unfold read at h
  by_cases hnil : text = []
  · rw [if_pos hnil] at h
    cases h
  · simp only [if_neg hnil, bind_eq_ok] at h
    obtain ⟨⟨front, slice⟩, -, segments, hsegments, h⟩ := h
    have hchars := segments_of_readSegments hsegments
    split at h
    · split at h
      · cases h
      · next hnamed =>
        obtain rfl := Except.ok.inj h
        exact ⟨hchars, fun _ => by simpa using hnamed⟩
    · obtain rfl := Except.ok.inj h
      exact ⟨hchars, fun hmark => nomatch hmark⟩

theorem isWellFormed_of_parse {line : Nat} {text : List Char} {p : Path}
    (h : Path.parse line text = .ok p) : p.IsWellFormed := by
  unfold Path.parse at h
  split at h
  · next path hread =>
    obtain rfl := Except.ok.inj h
    exact isWellFormed_of_read hread
  · cases h

end Path

/-! ### Arguments and tags -/

namespace Comparison

variable {line : Nat} {text rest : List Char} {operand : Operand}

theorem isWellFormed_of_wordOperand (h : wordOperand line text = .ok operand) :
    ∀ p ∈ operand.paths, p.IsWellFormed := by
  unfold wordOperand at h
  split at h
  · obtain rfl := Except.ok.inj h
    exact List.forall_mem_nil _
  · split at h
    · obtain rfl := Except.ok.inj h
      exact List.forall_mem_nil _
    · split at h
      · obtain rfl := Except.ok.inj h
        exact List.forall_mem_nil _
      · obtain ⟨path, hpath, rfl⟩ := map_eq_ok.1 h
        exact List.forall_mem_singleton.2 (Path.isWellFormed_of_parse hpath)

theorem isWellFormed_of_readOperand (h : readOperand line text = .ok (operand, rest)) :
    ∀ p ∈ operand.paths, p.IsWellFormed := by
  unfold readOperand at h
  split at h
  · cases h
  · split at h
    · split at h
      · cases h
      · obtain ⟨rfl, -⟩ := Prod.mk.inj (Except.ok.inj h)
        exact List.forall_mem_nil _
    · dsimp only at h
      split at h
      · cases h
      · obtain ⟨operand', hword, h⟩ := bind_eq_ok.1 h
        obtain ⟨rfl, -⟩ := Prod.mk.inj (Except.ok.inj h)
        exact isWellFormed_of_wordOperand hword

theorem isWellFormed_of_parse {c : Comparison} (h : Comparison.parse line text = .ok c) :
    ∀ p ∈ c.paths, p.IsWellFormed := by
  simp only [Comparison.parse, bind_eq_ok, Prod.exists] at h
  obtain ⟨left, behindLeft, hleft, op, behindOp, -, right, behindRight, hright, h⟩ := h
  split at h
  · obtain rfl := Except.ok.inj h
    intro p hp
    rcases List.mem_append.1 hp with hp | hp
    · exact isWellFormed_of_readOperand hleft p hp
    · exact isWellFormed_of_readOperand hright p hp
  · cases h

end Comparison

/-- The paths in an argument can be written, and it is from a text that they have been read. -/
theorem Param.isWellFormed_of_parse {line : Nat} {text : List Char} {param : Param}
    (h : Param.parse line text = .ok param) : ∀ p ∈ param.paths, p.IsWellFormed := by
  unfold Param.parse at h
  split at h
  · obtain ⟨c, hc, rfl⟩ := map_eq_ok.1 h
    exact Comparison.isWellFormed_of_parse hc
  · split at h
    · obtain rfl := Except.ok.inj h
      exact List.forall_mem_nil _
    · split at h
      · obtain rfl := Except.ok.inj h
        exact List.forall_mem_nil _
      · obtain ⟨path, hpath, rfl⟩ := map_eq_ok.1 h
        exact List.forall_mem_singleton.2 (Path.isWellFormed_of_parse hpath)

theorem Call.isWellFormed_of_ofTag {line : Nat} {tag : Tag} {call : Call}
    (h : Call.ofTag line tag = .ok call) : ∀ p ∈ call.paths, p.IsWellFormed := by
  simp only [Call.ofTag, bind_eq_ok] at h
  obtain ⟨path, hpath, params, hparams, hash, hhash, h⟩ := h
  obtain rfl := Except.ok.inj h
  refine List.forall_mem_cons.2 ⟨Path.isWellFormed_of_parse hpath, fun p hp => ?_⟩
  obtain ⟨param, hparam, hp⟩ := List.mem_flatMap.1 hp
  rcases List.mem_append.1 hparam with hparam | hparam
  · obtain ⟨arg, -, hparse⟩ := exists_of_mem_mapM hparams hparam
    exact Param.isWellFormed_of_parse hparse p hp
  · obtain ⟨entry, hentry, rfl⟩ := List.mem_map.1 hparam
    obtain ⟨⟨key, value⟩, -, hparse⟩ := exists_of_mem_mapM hhash hentry
    obtain ⟨param, hvalue, hpair⟩ := bind_eq_ok.1 hparse
    obtain rfl := Except.ok.inj hpair
    exact Param.isWellFormed_of_parse hvalue p hp

end Stencil
