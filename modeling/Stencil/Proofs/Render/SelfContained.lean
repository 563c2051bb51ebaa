import Stencil.Proofs.Render.Coupling
import Stencil.Proofs.Render.Outward
import Stencil.Proofs.Scope.Agreement
import Stencil.Proofs.Template.PartialNames

/-!
# Nodes that read a part of the scope

Nodes without partials and without `invoke` read the scope through the paths that are written in
them, and in no other way. In two scopes that answer these paths in the same way they give the same
text or the same error, and store the same fragments.

## Main definitions

* `Piece.pathsRead` - the paths that a tag looks up
* `Piece.IsSelfContained` - a tag that brings in no other nodes and looks up paths with a
  property only
* `Render.Transfers` - a step that gives the same in scopes that answer paths with a property in the
  same way

Main statements: `Render.Transfers.nested`, `Render.within_eq_of_agree`.

## Design notes

What has been stored before may look up anything, so fragments are not rendered by such nodes; they
may be stored by them, and there may be any of them in the state.
-/

namespace Stencil

/-! ### Tags -/

namespace Piece

/-- The head of a tag. -/
def call? : Piece → Option Call
  | .output call _ => some call
  | .opening call => some call
  | _ => none

/-- The paths that a tag looks up: those in its arguments, or in its condition or context, and its
name, unless it is that of a helper. -/
def pathsRead (helpers : Registry) (piece : Piece) : List Path :=
  ((piece.call?.filter fun call => (helpers.find? call.name).isNone).map Call.path).toList ++
    piece.arguments.flatMap Param.paths

/-- A tag that brings in no other nodes, neither those of a partial nor those of a fragment, and
looks up such paths only. -/
structure IsSelfContained (helpers : Registry) (Q : Path → Prop) (piece : Piece) : Prop where
  noPartial : piece.partialName? = none
  noFragment : ∀ call ∈ piece.call?, call.name ≠ "invoke"
  paths : ∀ p ∈ piece.pathsRead helpers, Q p

instance (helpers : Registry) (Q : Path → Prop) [DecidablePred Q] (piece : Piece) :
    Decidable (piece.IsSelfContained helpers Q) :=
  decidable_of_iff (piece.partialName? = none ∧
      (∀ call ∈ piece.call?, call.name ≠ "invoke") ∧ ∀ p ∈ piece.pathsRead helpers, Q p)
    ⟨fun ⟨hpartial, hfragment, hpaths⟩ => ⟨hpartial, hfragment, hpaths⟩,
      fun h => ⟨h.noPartial, h.noFragment, h.paths⟩⟩

variable {helpers : Registry} {Q : Path → Prop} {piece : Piece}

theorem IsSelfContained.param (h : piece.IsSelfContained helpers Q) {param : Param}
    (hparam : param ∈ piece.arguments) : ∀ p ∈ param.paths, Q p :=
  fun p hp => h.paths p (List.mem_append_right _ (List.mem_flatMap.2 ⟨param, hparam, hp⟩))

theorem IsSelfContained.name (h : piece.IsSelfContained helpers Q) {call : Call}
    (hcall : piece.call? = some call) (hfind : helpers.find? call.name = none) : Q call.path := by
  refine h.paths call.path (List.mem_append_left _ ?_)
  simp [hcall, hfind]

end Piece

variable {helpers : Registry} {Q : Path → Prop}

/-- A row of tags that bring in no other nodes and look up such paths only. -/
def SelfContained (helpers : Registry) (Q : Path → Prop) (row : List Piece) : Prop :=
  ∀ piece ∈ row, piece.IsSelfContained helpers Q

instance (helpers : Registry) (Q : Path → Prop) [DecidablePred Q] (row : List Piece) :
    Decidable (SelfContained helpers Q row) :=
  inferInstanceAs (Decidable (∀ _ ∈ row, _))

namespace SelfContained

variable {row later : List Piece}

theorem append : SelfContained helpers Q (row ++ later) ↔
    SelfContained helpers Q row ∧ SelfContained helpers Q later :=
  List.forall_mem_append

theorem cons {piece : Piece} : SelfContained helpers Q (piece :: row) ↔
    piece.IsSelfContained helpers Q ∧ SelfContained helpers Q row :=
  List.forall_mem_cons

/-- The main body of a block, and the branches behind it. -/
theorem branches {branches : List (Branch Node)}
    (h : SelfContained helpers Q (branchesPieces true branches)) :
    SelfContained helpers Q (nodesPieces (Render.mainBody branches)) ∧
      SelfContained helpers Q (branchesPieces false branches.tail) := by
  cases branches with
  | nil => exact ⟨h, h⟩
  | cons branch branches => exact append.1 h

/-- The condition of a branch, its body, and the branches behind it. -/
theorem branch {branch : Branch Node} {branches : List (Branch Node)}
    (h : SelfContained helpers Q (branchesPieces false (branch :: branches))) :
    (∀ param ∈ branch.condition, ∀ p ∈ param.paths, Q p) ∧
      SelfContained helpers Q (nodesPieces branch.body) ∧
      SelfContained helpers Q (branchesPieces false branches) := by
  obtain ⟨hmark, hbranches⟩ := append.1 h
  obtain ⟨hmark, hbody⟩ := append.1 hmark
  exact ⟨fun param hparam => (hmark _ (.head _)).param (Option.mem_toList.2 hparam), hbody,
    hbranches⟩

end SelfContained

/-- The state in another scope. -/
def RenderState.inScope (st : RenderState) (s : Scope) : RenderState :=
  { st with scope := s }

namespace Render

variable {α β : Type} {env : RenderEnv} {below : Nested}

/-- In another scope that answers such paths in the same way, the step gives the same, and what it
leaves behind differs in the scope only. -/
def Transfers (Q : Path → Prop) (x : Render α) : Prop :=
  ∀ (st : RenderState) (s : Scope), st.scope.AgreeOn Q s →
    x (st.inScope s) = ((x st).1, (x st).2.inScope s)

/-- In two frames that answer such paths in the same way, a step gives the same and leaves the same
behind. -/
theorem within_eq_of_agree {x : Render α} (hbalanced : Balanced x) (hx : Transfers Q x)
    (st : RenderState) (frame frame' : Option Frame)
    (h : (st.enter frame).scope.AgreeOn Q (st.enter frame').scope) :
    within frame' x st = within frame x st := by
  have hstate : st.enter frame' = (st.enter frame).inScope (st.enter frame').scope := by
    cases frame with
    | none =>
      cases frame' with
      | none => rfl
      | some frame' => rfl
    | some frame =>
      cases frame' with
      | none => rfl
      | some frame' => rfl
  rw [within_eq hbalanced, within_eq hbalanced, hstate, hx _ _ h]
  rfl

namespace Transfers

theorem pure (a : α) : Transfers Q (Pure.pure a : Render α) :=
  fun _ _ _ => rfl

theorem ofResult (result : Except Error α) : Transfers Q (Render.ofResult result) :=
  fun _ _ _ => rfl

theorem define (name : String) (body : List Node) : Transfers Q (Render.define name body) :=
  fun _ _ _ => rfl

/-- What is read from the scope is the same in both. -/
theorem readScope {f : Scope → α} (hf : ∀ s s', s.AgreeOn Q s' → f s' = f s) :
    Transfers Q (Render.readScope f) :=
  fun st s h => congrArg (fun a => (Except.ok a, st.inScope s)) (hf st.scope s h)

theorem bind {x : Render α} {f : α → Render β} (hbalanced : Balanced x) (hx : Transfers Q x)
    (hf : ∀ a, Transfers Q (f a)) : Transfers Q (x >>= f) := by
  intro st s h
  show Render.bind x f (st.inScope s) = ((Render.bind x f st).1, (Render.bind x f st).2.inScope s)
  have hkept := (hbalanced st).1
  have hout := hx st s h
  unfold Render.bind
  cases hstep : x st with
  | mk result mid =>
    rw [hstep] at hkept hout
    rw [hout]
    cases result with
    | error e => rfl
    | ok a => exact hf a mid s (by rwa [show mid.scope = st.scope from hkept])

/-- The same frame is entered in both scopes. -/
theorem within (frame : Option Frame) {x : Render α} (hx : Transfers Q x)
    (hbalanced : Balanced x) : Transfers Q (Render.within frame x) := by
  intro st s h
  cases frame with
  | none => exact hx st s h
  | some frame =>
    have hout := hx (st.enter (some frame)) (s.push frame) (h.push frame)
    have hstate : (st.inScope s).enter (some frame) =
        (st.enter (some frame)).inScope (s.push frame) := rfl
    rw [within_eq hbalanced, within_eq hbalanced, hstate, hout]
    rfl

theorem deeper {x : Render α} (hx : Transfers Q x) : Transfers Q (Render.deeper x) := by
  intro st s h
  have hout := hx { st with depth := st.depth + 1 } s h
  unfold Render.deeper
  by_cases hfull : maxDepth ≤ st.depth
  · rw [if_pos hfull, if_pos (show maxDepth ≤ (st.inScope s).depth from hfull)]
  · rw [if_neg hfull, if_neg (show ¬ maxDepth ≤ (st.inScope s).depth from hfull)]
    simp only [RenderState.inScope] at hout ⊢
    rw [hout]

/-! ### Helpers -/

section Helpers

variable (hbalanced : ∀ body, Balanced (below body))
  (hbelow : ∀ body, SelfContained env.helpers Q (nodesPieces body) → Transfers Q (below body))
include hbelow

theorem inverse {branches : List (Branch Node)}
    (hbranches : SelfContained env.helpers Q (branchesPieces false branches)) :
    Transfers Q (Render.inverse below branches) := by
  induction branches with
  | nil => exact .pure ""
  | cons branch branches ih =>
    obtain ⟨hcondition, hbody, hlater⟩ := hbranches.branch
    refine .bind (.readScope _) (.readScope fun s s' h => ?_) fun isChosen => ?_
    · obtain ⟨condition, body⟩ := branch
      cases condition with
      | none => rfl
      | some param => exact congrArg Value.isTruthy (h.resolveParam (hcondition param rfl))
    · cases isChosen with
      | true => exact hbelow branch.body hbody
      | false => exact ih hlater

include hbalanced

theorem answer {branches : List (Branch Node)}
    (hbranches : SelfContained env.helpers Q (branchesPieces true branches)) {request : Request}
    (hrequest : ∀ name, request ≠ .invoke name) :
    Transfers Q (Render.answer below branches request) := by
  obtain ⟨hbody, hlater⟩ := hbranches.branches
  cases request with
  | body frame => exact .within frame (hbelow _ hbody) (hbalanced _)
  | inverse frame => exact .within frame (.inverse hbelow hlater) (.inverse hbalanced _)
  | define name => exact .define name _
  | invoke name => exact absurd rfl (hrequest name)

/-- The requests of a helper that asks for no fragments. -/
theorem run {branches : List (Branch Node)}
    (hbranches : SelfContained env.helpers Q (branchesPieces true branches))
    {program : Program α} (hprogram : program.Asks fun request => ∀ name, request ≠ .invoke name) :
    Transfers Q (Render.run (Render.answer below branches) program) := by
  induction hprogram with
  | done result => exact .ofResult result
  | @ask request next hrequest herror _ ih =>
    intro st s h
    have hkept := (Balanced.answer hbalanced branches request st).1
    have hout := Transfers.answer hbalanced hbelow hbranches hrequest st s h
    simp only [Render.run]
    cases hstep : Render.answer below branches request st with
    | mk result mid =>
      rw [hstep] at hkept hout
      rw [hout]
      cases result with
      | error e =>
        simp only [herror e]
        rfl
      | ok text => exact ih text mid s (by rwa [show mid.scope = st.scope from hkept])

/-- The requests of a helper that does the same in scopes that answer such paths in the same
way. -/
theorem runInvocation {call : Call} (harguments : ∀ param ∈ call.arguments, ∀ p ∈ param.paths, Q p)
    {program : Invocation → Program α}
    (hsame : ∀ invocation scope, scope.dataVariables = invocation.scope.dataVariables →
      program { invocation with scope := scope } = program invocation)
    (hprogram : ∀ invocation,
      (program invocation).Asks fun request => ∀ name, request ≠ .invoke name)
    {branches : List (Branch Node)}
    (hbranches : SelfContained env.helpers Q (branchesPieces true branches)) :
    Transfers Q (do
      let invocation ← Render.readScope (call.invocation !branches.isEmpty)
      Render.run (Render.answer below branches) (program invocation)) := by
  intro st s h
  have hparams : ∀ param ∈ call.params, s.resolveParam param = st.scope.resolveParam param :=
    fun param hparam => h.resolveParam (harguments param (List.mem_append_left _ hparam))
  have hhash : ∀ entry ∈ call.hash, s.resolveParam entry.2 = st.scope.resolveParam entry.2 :=
    fun entry hentry => h.resolveParam
      (harguments entry.2 (List.mem_append_right _ (List.mem_map_of_mem hentry)))
  have hinvocation := Call.invocation_congr hparams hhash (!branches.isEmpty)
  show Render.run (Render.answer below branches)
    (program (call.invocation (!branches.isEmpty) s)) (st.inScope s) = _
  rw [hinvocation, hsame _ s h.setting]
  exact Transfers.run hbalanced hbelow hbranches (hprogram _) st s h

end Helpers

/-! ### Tags -/

section Tags

variable (hhelpers : env.helpers = Registry.builtin) (hbalanced : ∀ body, Balanced (below body))
  (hbelow : ∀ body, SelfContained env.helpers Q (nodesPieces body) → Transfers Q (below body))
include hhelpers hbalanced hbelow

theorem callHelper {helper : Helper} {call : Call}
    (hfind : env.helpers.find? call.name = some helper) (hinvoke : call.name ≠ "invoke")
    (harguments : ∀ param ∈ call.arguments, ∀ p ∈ param.paths, Q p) {branches : List (Branch Node)}
    (hbranches : SelfContained env.helpers Q (branchesPieces true branches)) :
    Transfers Q (Render.callHelper below helper call branches) := by
  rw [hhelpers] at hfind
  refine .runInvocation hbalanced hbelow harguments
    (fun invocation scope hsetting => Helper.run_of_setting hsetting hfind) ?_ hbranches
  exact Helper.asks_builtin (fun _ => nofun) (fun _ => nofun) (fun _ _ => nofun)
    (fun h => absurd h hinvoke) hfind

theorem output {call : Call} {escaped : Bool}
    (h : (Piece.output call escaped).IsSelfContained env.helpers Q) :
    Transfers Q (Render.output env below call escaped) := by
  unfold Render.output
  split
  · next helper hfind =>
    exact .bind (.callHelper hbalanced helper call [])
      (.callHelper hhelpers hbalanced hbelow hfind (h.noFragment call rfl) (fun _ => h.param)
        (List.forall_mem_nil _)) fun _ => .pure _
  · next hfind =>
    split
    · exact .ofResult _
    · refine .bind (.readScope _)
        (.readScope fun s s' hs => hs.resolveSliced? (h.name rfl hfind)) fun value => ?_
      cases value with
      | none => exact .pure _
      | some value => exact .pure _

theorem inline {call : Call} (h : (Piece.opening call).IsSelfContained env.helpers Q) :
    Transfers Q (Render.inline env below call) := by
  unfold Render.inline
  split
  · next helper hfind =>
    exact .callHelper hhelpers hbalanced hbelow hfind (h.noFragment call rfl) (fun _ => h.param)
      (List.forall_mem_nil _)
  · next hfind =>
    refine .bind (.readScope _)
      (.readScope fun s s' hs => hs.resolveSliced? (h.name rfl hfind)) fun value => ?_
    cases value with
    | none => exact .ofResult _
    | some value =>
      dsimp only
      split
      · exact .ofResult _
      · exact .pure _

theorem block {call : Call} {branches : List (Branch Node)}
    (h : (Piece.opening call).IsSelfContained env.helpers Q)
    (hbranches : SelfContained env.helpers Q (branchesPieces true branches)) :
    Transfers Q (Render.block env below call branches) := by
  unfold Render.block
  split
  · next helper hfind =>
    exact .callHelper hhelpers hbalanced hbelow hfind (h.noFragment call rfl) (fun _ => h.param)
      hbranches
  · next hfind =>
    refine .bind (.readScope _)
      (.readScope fun s s' hs => hs.resolveSliced? (h.name rfl hfind)) fun value => ?_
    cases value with
    | none => exact .ofResult _
    | some value =>
      dsimp only
      split
      · exact .ofResult _
      · exact .runInvocation hbalanced hbelow (fun _ => h.param)
          (fun _ _ hsetting => Helper.variableBlock_of_setting hsetting value)
          (fun _ => Helper.asks_variableBlock (fun _ => nofun) (fun _ => nofun) _ value) hbranches

theorem node {n : Node} (h : SelfContained env.helpers Q n.pieces) :
    Transfers Q (Render.node env below n) := by
  cases n with
  | text body => exact .pure body
  | raw body => exact .pure body
  | output call escaped => exact .output hhelpers hbalanced hbelow (h _ (.head _))
  | inline call => exact .inline hhelpers hbalanced hbelow (h _ (.head _))
  | block call branches =>
    obtain ⟨hcall, hbranches⟩ := SelfContained.cons.1 h
    exact .block hhelpers hbalanced hbelow hcall (SelfContained.append.1 hbranches).1
  | partialTag name context line => exact absurd (h _ (.head _)).noPartial nofun

theorem nodes {body : List Node} (h : SelfContained env.helpers Q (nodesPieces body)) :
    Transfers Q (Render.nodes env below body) := by
  induction body with
  | nil => exact .pure ""
  | cons first rest ih =>
    obtain ⟨hfirst, hrest⟩ := SelfContained.append.1 h
    exact .bind (.node hbalanced first) (.node hhelpers hbalanced hbelow hfirst) fun _ =>
      .bind (.nodes hbalanced rest) (ih hrest) fun _ => .pure _

end Tags

/-- Nodes that are rendered a level deeper, by induction on the levels that are left. -/
theorem nested (hhelpers : env.helpers = Registry.builtin) (levels : Nat) {body : List Node}
    (h : SelfContained env.helpers Q (nodesPieces body)) :
    Transfers Q (Render.nested env levels body) := by
  induction levels generalizing body with
  | zero => exact .deeper (.ofResult _)
  | succ levels ih => exact .deeper (.nodes hhelpers (.nested env levels) (fun _ => ih) h)

end Transfers

end Render

end Stencil
