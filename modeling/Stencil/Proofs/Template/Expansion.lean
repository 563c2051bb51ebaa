import Mathlib.Data.List.Forall2
import Stencil.Proofs.Loader.Inclusion

/-!
# Expanding partials

A partial without a context is rendered where its tag stands, one level deeper and in the same
frame. So is the body of a block `if` with a true condition, and such a block with the nodes of the
partial can stand in place of the tag. In the nodes of a partial there may be other partials; as
long as none reaches itself, all of them are replaced in the end.

## Main definitions

* `Node.ifTrue` - the block that stands for a partial
* `Node.expand?`, `Template.expand?` - nodes and trees with blocks in place of partials
* `Loader.expanded?` - the nodes of a partial, with blocks in place of the partials in it
* `Template.IsExpandable` - the trees whose partials can be replaced

Main statement: `Template.IsExpandable.exists_expand?`.
-/

namespace Stencil

/-- The context of the partial that a piece renders, if it has one. -/
def Piece.context? : Piece → Option Param
  | .partialTag _ context _ => context
  | _ => none

/-- The block `if true`. -/
def Node.ifTrue (line : Nat) (body : List Node) : Node :=
  .block ⟨"if", ⟨"if", false, 0, ["if"], none⟩, [.literal (.bool true)], [], line⟩ [⟨none, body⟩]

example : Template.parse "\x7b\x7b#if true\x7d\x7dx\x7b\x7b/if\x7d\x7d" =
    .ok ⟨[.ifTrue 1 [.text "x"]]⟩ :=
  have hscan : Token.scan "\x7b\x7b#if true\x7d\x7dx\x7b\x7b/if\x7d\x7d" =
      .ok [⟨.opening ⟨"if", ["true"], []⟩, 1⟩, ⟨.text "x", 1⟩, ⟨.closing "if", 1⟩] :=
    toOption_eq_some.1 (by decide +kernel)
  bind_eq_ok.2 ⟨_, hscan, rfl⟩

mutual

/-- A node with blocks in place of the partials in it, given the nodes of partials by their names.
There is no such node if a partial has a context, or no nodes. -/
def Node.expand? (body? : String → Option (List Node)) : Node → Option Node
  | .text body => some (.text body)
  | .raw body => some (.raw body)
  | .output call escaped => some (.output call escaped)
  | .inline call => some (.inline call)
  | .block call branches => (branchesExpand? body? branches).map (.block call)
  | .partialTag name context line =>
    match context with
    | none => (body? name).map (Node.ifTrue line)
    | some _ => none

/-- Nodes with blocks in place of the partials in them. -/
def nodesExpand? (body? : String → Option (List Node)) : List Node → Option (List Node)
  | [] => some []
  | n :: body => do
    let first ← n.expand? body?
    let rest ← nodesExpand? body? body
    return first :: rest

/-- Branches with blocks in place of the partials in them. -/
def branchesExpand? (body? : String → Option (List Node)) :
    List (Branch Node) → Option (List (Branch Node))
  | [] => some []
  | ⟨condition, body⟩ :: branches => do
    let first ← nodesExpand? body? body
    let rest ← branchesExpand? body? branches
    return ⟨condition, first⟩ :: rest

end

/-- The nodes of a partial, with blocks in place of the partials in it and of those in their texts,
up to the given number of levels of inclusion. -/
def Loader.expanded? (partials : Loader) : (levels : Nat) → String → Option (List Node)
  | 0, _ => none
  | levels + 1, name => do
    let source ← (partials.load name).toOption
    let t ← (Template.parse source.source).toOption
    nodesExpand? (partials.expanded? levels) t.nodes

/-- A tree with blocks in place of all partials, up to the given number of levels of inclusion. -/
def Template.expand? (partials : Loader) (levels : Nat) (t : Template) : Option Template :=
  (nodesExpand? (partials.expanded? levels) t.nodes).map Template.mk

/-! ### Nodes -/

section Nodes

variable {body? more? : String → Option (List Node)}

theorem nodesExpand?_eq_some {body body' : List Node} :
    nodesExpand? body? body = some body' ↔
      List.Forall₂ (fun n n' => n.expand? body? = some n') body body' := by
  induction body generalizing body' with
  | nil => simp [nodesExpand?, @eq_comm _ [] body']
  | cons n body ih =>
    simp only [nodesExpand?, List.forall₂_cons_left_iff, Option.bind_eq_bind,
      Option.bind_eq_some_iff, ← ih]
    constructor
    · rintro ⟨first, hfirst, rest, hrest, h⟩
      exact ⟨first, rest, hfirst, hrest, (Option.some.inj h).symm⟩
    · rintro ⟨first, rest, hfirst, hrest, rfl⟩
      exact ⟨first, hfirst, rest, hrest, rfl⟩

theorem branchesExpand?_eq_some {branches branches' : List (Branch Node)} :
    branchesExpand? body? branches = some branches' ↔
      List.Forall₂ (fun branch branch' => branch'.condition = branch.condition ∧
        nodesExpand? body? branch.body = some branch'.body) branches branches' := by
  induction branches generalizing branches' with
  | nil => simp [branchesExpand?, @eq_comm _ [] branches']
  | cons branch branches ih =>
    simp only [branchesExpand?, List.forall₂_cons_left_iff, Option.bind_eq_bind,
      Option.bind_eq_some_iff, ← ih]
    constructor
    · rintro ⟨first, hfirst, rest, hrest, h⟩
      exact ⟨⟨branch.condition, first⟩, rest, ⟨rfl, hfirst⟩, hrest, (Option.some.inj h).symm⟩
    · rintro ⟨⟨condition, first⟩, rest, ⟨rfl, hfirst⟩, hrest, rfl⟩
      exact ⟨first, hfirst, rest, hrest, rfl⟩

/-- If a piece is a partial, then it can be replaced. -/
def Piece.CanExpand (body? : String → Option (List Node)) (piece : Piece) : Prop :=
  piece.context? = none ∧ ∀ name ∈ piece.partialName?, (body? name).isSome

mutual

/-- All partials that can be replaced are. -/
theorem Node.exists_expand? (n : Node) (h : ∀ piece ∈ n.pieces, piece.CanExpand body?) :
    ∃ n', n.expand? body? = some n' := by
  cases n with
  | block call branches =>
    obtain ⟨branches', hbranches⟩ := exists_branchesExpand? true branches fun piece hpiece =>
      h piece (.tail _ (List.mem_append_left _ hpiece))
    exact ⟨.block call branches', by rw [Node.expand?, hbranches, Option.map_some]⟩
  | partialTag name context line =>
    obtain ⟨hcontext, hbody⟩ := h _ (.head _)
    obtain rfl : context = none := hcontext
    obtain ⟨body, hbody⟩ := Option.isSome_iff_exists.1 (hbody name rfl)
    exact ⟨.ifTrue line body, by rw [Node.expand?, hbody, Option.map_some]⟩
  | _ => exact ⟨_, rfl⟩

theorem exists_nodesExpand? (body : List Node)
    (h : ∀ piece ∈ nodesPieces body, piece.CanExpand body?) :
    ∃ body', nodesExpand? body? body = some body' := by
  cases body with
  | nil => exact ⟨[], rfl⟩
  | cons n body =>
    obtain ⟨first, hfirst⟩ := n.exists_expand? fun piece hpiece =>
      h piece (List.mem_append_left _ hpiece)
    obtain ⟨rest, hrest⟩ := exists_nodesExpand? body fun piece hpiece =>
      h piece (List.mem_append_right _ hpiece)
    exact ⟨first :: rest, by rw [nodesExpand?, hfirst, hrest]; rfl⟩

theorem exists_branchesExpand? (isFirst : Bool) (branches : List (Branch Node))
    (h : ∀ piece ∈ branchesPieces isFirst branches, piece.CanExpand body?) :
    ∃ branches', branchesExpand? body? branches = some branches' := by
  cases branches with
  | nil => exact ⟨[], rfl⟩
  | cons branch branches =>
    obtain ⟨condition, body⟩ := branch
    obtain ⟨first, hfirst⟩ := exists_nodesExpand? body fun piece hpiece =>
      h piece (List.mem_append_left _ (List.mem_append_right _ hpiece))
    obtain ⟨rest, hrest⟩ := exists_branchesExpand? false branches fun piece hpiece =>
      h piece (List.mem_append_right _ hpiece)
    exact ⟨⟨condition, first⟩ :: rest, by rw [branchesExpand?, hfirst, hrest]; rfl⟩

end

mutual

/-- Nothing changes where more partials have nodes. -/
theorem Node.expand?_mono (hmore : ∀ name body, body? name = some body → more? name = some body)
    {n n' : Node} (h : n.expand? body? = some n') : n.expand? more? = some n' := by
  cases n with
  | block call branches =>
    obtain ⟨branches', hbranches, rfl⟩ := Option.map_eq_some_iff.1 h
    rw [Node.expand?, branchesExpand?_mono hmore hbranches, Option.map_some]
  | partialTag name context line =>
    cases context with
    | none =>
      obtain ⟨body, hbody, rfl⟩ := Option.map_eq_some_iff.1 h
      rw [Node.expand?, hmore name body hbody, Option.map_some]
    | some param => cases h
  | _ => exact h

theorem nodesExpand?_mono (hmore : ∀ name body, body? name = some body → more? name = some body)
    {body body' : List Node} (h : nodesExpand? body? body = some body') :
    nodesExpand? more? body = some body' := by
  cases body with
  | nil => exact h
  | cons n body =>
    obtain ⟨first, hfirst, h⟩ := Option.bind_eq_some_iff.1 h
    obtain ⟨rest, hrest, h⟩ := Option.bind_eq_some_iff.1 h
    rw [nodesExpand?, Node.expand?_mono hmore hfirst, nodesExpand?_mono hmore hrest]
    exact h

theorem branchesExpand?_mono
    (hmore : ∀ name body, body? name = some body → more? name = some body)
    {branches branches' : List (Branch Node)}
    (h : branchesExpand? body? branches = some branches') :
    branchesExpand? more? branches = some branches' := by
  cases branches with
  | nil => exact h
  | cons branch branches =>
    obtain ⟨condition, body⟩ := branch
    obtain ⟨first, hfirst, h⟩ := Option.bind_eq_some_iff.1 h
    obtain ⟨rest, hrest, h⟩ := Option.bind_eq_some_iff.1 h
    rw [branchesExpand?, nodesExpand?_mono hmore hfirst, branchesExpand?_mono hmore hrest]
    exact h

end

mutual

/-- No partials are left, if there are none in what stands in their places. -/
theorem Node.partialNames_of_expand?
    (hbody : ∀ name body, body? name = some body → nodesPartialNames body = [])
    {n n' : Node} (h : n.expand? body? = some n') : n'.partialNames = [] := by
  cases n with
  | block call branches =>
    obtain ⟨branches', hbranches, rfl⟩ := Option.map_eq_some_iff.1 h
    exact branchesPartialNames_of_expand? hbody hbranches
  | partialTag name context line =>
    cases context with
    | none =>
      obtain ⟨body, hname, rfl⟩ := Option.map_eq_some_iff.1 h
      show nodesPartialNames body ++ [] = []
      rw [hbody name body hname, List.append_nil]
    | some param => cases h
  | _ =>
    obtain rfl := Option.some.inj h
    rfl

theorem nodesPartialNames_of_expand?
    (hbody : ∀ name body, body? name = some body → nodesPartialNames body = [])
    {body body' : List Node} (h : nodesExpand? body? body = some body') :
    nodesPartialNames body' = [] := by
  cases body with
  | nil =>
    obtain rfl := Option.some.inj h
    rfl
  | cons n body =>
    obtain ⟨first, hfirst, h⟩ := Option.bind_eq_some_iff.1 h
    obtain ⟨rest, hrest, h⟩ := Option.bind_eq_some_iff.1 h
    obtain rfl := Option.some.inj h
    rw [nodesPartialNames, Node.partialNames_of_expand? hbody hfirst,
      nodesPartialNames_of_expand? hbody hrest, List.append_nil]

theorem branchesPartialNames_of_expand?
    (hbody : ∀ name body, body? name = some body → nodesPartialNames body = [])
    {branches branches' : List (Branch Node)}
    (h : branchesExpand? body? branches = some branches') :
    branchesPartialNames branches' = [] := by
  cases branches with
  | nil =>
    obtain rfl := Option.some.inj h
    rfl
  | cons branch branches =>
    obtain ⟨condition, body⟩ := branch
    obtain ⟨first, hfirst, h⟩ := Option.bind_eq_some_iff.1 h
    obtain ⟨rest, hrest, h⟩ := Option.bind_eq_some_iff.1 h
    obtain rfl := Option.some.inj h
    rw [branchesPartialNames, nodesPartialNames_of_expand? hbody hfirst,
      branchesPartialNames_of_expand? hbody hrest, List.append_nil]

end

end Nodes

/-! ### Partials -/

namespace Loader

variable {partials : Loader} {levels : Nat} {name : String} {body : List Node}

theorem expanded?_succ_eq_some :
    partials.expanded? (levels + 1) name = some body ↔
      ∃ source t, partials.load name = .ok source ∧ Template.parse source.source = .ok t ∧
        nodesExpand? (partials.expanded? levels) t.nodes = some body := by
  simp only [expanded?, Option.bind_eq_bind, Option.bind_eq_some_iff, toOption_eq_some]
  constructor
  · rintro ⟨source, hload, t, hparse, hbody⟩
    exact ⟨source, t, hload, hparse, hbody⟩
  · rintro ⟨source, t, hload, hparse, hbody⟩
    exact ⟨source, hload, t, hparse, hbody⟩

/-- More levels change nothing. -/
theorem expanded?_mono {more : Nat} (hle : levels ≤ more)
    (h : partials.expanded? levels name = some body) :
    partials.expanded? more name = some body := by
  induction levels generalizing more name body with
  | zero => cases h
  | succ levels ih =>
    obtain ⟨more, rfl⟩ : ∃ rest, more = rest + 1 := ⟨more - 1, by omega⟩
    obtain ⟨source, t, hload, hparse, hbody⟩ := expanded?_succ_eq_some.1 h
    have hmore := nodesExpand?_mono (fun name body => ih (Nat.le_of_succ_le_succ hle)) hbody
    exact expanded?_succ_eq_some.2 ⟨source, t, hload, hparse, hmore⟩

theorem partialNames_of_expanded? (h : partials.expanded? levels name = some body) :
    nodesPartialNames body = [] := by
  induction levels generalizing name body with
  | zero => cases h
  | succ levels ih =>
    obtain ⟨source, t, -, -, hbody⟩ := expanded?_succ_eq_some.1 h
    exact nodesPartialNames_of_expand? (fun name body => ih) hbody

/-- For some partials, a number of levels that is enough for each of them. -/
theorem exists_levels {names : List String}
    (h : ∀ name ∈ names, ∃ levels, (partials.expanded? levels name).isSome) :
    ∃ levels, ∀ name ∈ names, (partials.expanded? levels name).isSome := by
  induction names with
  | nil => exact ⟨0, fun _ hname => nomatch hname⟩
  | cons first names ih =>
    obtain ⟨levels, hfirst⟩ := h first (.head _)
    obtain ⟨more, hnames⟩ := ih fun name hname => h name (.tail _ hname)
    have hmono {low : Nat} {name : String} (hle : low ≤ max levels more)
        (h : (partials.expanded? low name).isSome) :
        (partials.expanded? (max levels more) name).isSome := by
      obtain ⟨body, hbody⟩ := Option.isSome_iff_exists.1 h
      exact Option.isSome_iff_exists.2 ⟨body, expanded?_mono hle hbody⟩
    refine ⟨max levels more, List.forall_mem_cons.2 ⟨hmono (Nat.le_max_left _ _) hfirst, ?_⟩⟩
    exact fun name hname => hmono (Nat.le_max_right _ _) (hnames name hname)

end Loader

/-! ### Trees -/

namespace Template

variable {partials : Loader} {t : Template}

/-- No partial in the tree has a context. -/
def IsBare (t : Template) : Prop :=
  ∀ piece ∈ nodesPieces t.nodes, piece.context? = none

instance (t : Template) : Decidable t.IsBare :=
  inferInstanceAs (Decidable (∀ piece ∈ nodesPieces t.nodes, piece.context? = none))

/-- The partials in the tree can be replaced: neither they nor those that they reach have contexts,
all of them have texts with trees, and none of them reaches itself. -/
structure IsExpandable (partials : Loader) (t : Template) : Prop where
  bare : t.IsBare
  loads : ∀ name, t.Reaches partials name → ∃ source tree, partials.load name = .ok source ∧
    parse source.source = .ok tree ∧ tree.IsBare
  acyclic : ∀ name, t.Reaches partials name → ¬ Relation.TransGen partials.Includes name name

/-- For this it is enough that a list of partials has all that are in the tree and in their own
texts, and that their ranks are lower in the texts of others. -/
theorem isExpandable_of_rank (names : List String) (rank : String → Nat) (hbare : t.IsBare)
    (hfirst : ∀ name ∈ t.partialNames, name ∈ names)
    (hnames : ∀ name ∈ names, ∃ source tree, partials.load name = .ok source ∧
      parse source.source = .ok tree ∧ tree.IsBare ∧
      ∀ inner ∈ tree.partialNames, inner ∈ names ∧ rank inner < rank name) :
    t.IsExpandable partials := by
  have hincludes {outer inner : String} (houter : outer ∈ names)
      (h : partials.Includes outer inner) : inner ∈ names ∧ rank inner < rank outer := by
    obtain ⟨source, tree, hload, hparse, hinner⟩ := h
    obtain ⟨source', tree', hload', hparse', -, hall⟩ := hnames outer houter
    obtain rfl := Except.ok.inj (hload.symm.trans hload')
    obtain rfl := Except.ok.inj (hparse.symm.trans hparse')
    exact hall inner hinner
  have hreaches {name : String} (h : t.Reaches partials name) : name ∈ names := by
    obtain ⟨first, hmem, hpath⟩ := h
    induction hpath with
    | refl => exact hfirst first hmem
    | tail _ hnext ih => exact (hincludes ih hnext).1
  have hdescends {outer inner : String} (houter : outer ∈ names)
      (h : Relation.TransGen partials.Includes outer inner) :
      inner ∈ names ∧ rank inner < rank outer := by
    induction h with
    | single hnext => exact hincludes houter hnext
    | tail _ hnext ih =>
      obtain ⟨hmid, hlower⟩ := ih
      obtain ⟨hinner, hlower'⟩ := hincludes hmid hnext
      exact ⟨hinner, Nat.lt_trans hlower' hlower⟩
  refine ⟨hbare, fun name hname => ?_, fun name hname hcycle => ?_⟩
  · obtain ⟨source, tree, hload, hparse, hbare, -⟩ := hnames name (hreaches hname)
    exact ⟨source, tree, hload, hparse, hbare⟩
  · exact Nat.lt_irrefl _ (hdescends (hreaches hname) hcycle).2

/-- With nodes for the partials in a tree there are nodes for the tree. -/
theorem IsBare.exists_nodesExpand? (h : t.IsBare) {body? : String → Option (List Node)}
    (hbody : ∀ name ∈ t.partialNames, (body? name).isSome) :
    ∃ body, nodesExpand? body? t.nodes = some body := by
  refine Stencil.exists_nodesExpand? t.nodes fun piece hpiece => ⟨h piece hpiece, ?_⟩
  intro name hname
  refine hbody name ?_
  rw [partialNames, nodesPartialNames_eq]
  exact List.mem_filterMap.2 ⟨piece, hpiece, hname⟩

/-- Every partial that is reached has nodes without partials. The induction is on the partials that
are reached from it. -/
theorem IsExpandable.exists_expanded? (h : t.IsExpandable partials) {name : String}
    (hname : t.Reaches partials name) : ∃ levels, (partials.expanded? levels name).isSome := by
  let Within (inner outer : { name // t.Reaches partials name }) : Prop :=
    partials.Includes outer.1 inner.1
  have hwf : WellFounded Within := wellFounded_includes h.acyclic
  suffices hall : ∀ reached : { name // t.Reaches partials name },
      ∃ levels, (partials.expanded? levels reached.1).isSome from hall ⟨name, hname⟩
  intro reached
  induction reached using hwf.induction with
  | h outer ih =>
    obtain ⟨source, tree, hload, hparse, hbare⟩ := h.loads outer.1 outer.2
    have hinner : ∀ inner ∈ tree.partialNames,
        ∃ levels, (partials.expanded? levels inner).isSome := by
      intro inner hmem
      have hincludes : partials.Includes outer.1 inner := ⟨source, tree, hload, hparse, hmem⟩
      exact ih ⟨inner, outer.2.tail hincludes⟩ hincludes
    obtain ⟨levels, hlevels⟩ := Loader.exists_levels hinner
    obtain ⟨body, hbody⟩ := hbare.exists_nodesExpand? hlevels
    refine ⟨levels + 1, Option.isSome_iff_exists.2 ⟨body, ?_⟩⟩
    exact Loader.expanded?_succ_eq_some.2 ⟨source, tree, hload, hparse, hbody⟩

/-- All partials of a tree can be replaced if those that it reaches have no contexts, have texts
with trees, and do not reach themselves. From some number of levels on the result is the same, and
no partials are left in it. -/
theorem IsExpandable.exists_expand? (h : t.IsExpandable partials) :
    ∃ levels t', (∀ more, levels ≤ more → t.expand? partials more = some t') ∧
      t'.partialNames = [] := by
  have hfirst : ∀ name ∈ t.partialNames, ∃ levels, (partials.expanded? levels name).isSome :=
    fun name hname => h.exists_expanded? ⟨name, hname, .refl⟩
  obtain ⟨levels, hlevels⟩ := Loader.exists_levels hfirst
  obtain ⟨body, hbody⟩ := h.bare.exists_nodesExpand? hlevels
  refine ⟨levels, ⟨body⟩, fun more hle => ?_, ?_⟩
  · have hmore := nodesExpand?_mono (fun name body => Loader.expanded?_mono hle) hbody
    rw [expand?, hmore, Option.map_some]
  · exact nodesPartialNames_of_expand? (fun name body => Loader.partialNames_of_expanded?) hbody

end Template

end Stencil
