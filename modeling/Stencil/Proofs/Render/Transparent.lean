import Stencil.Proofs.Render.Loops

/-!
# Frames that are not noticed

A name is looked up from the innermost frame outwards, so a frame that lacks the names in a body
changes nothing for it. In a frame of such a value `with` does what `if` does, and a loop over such
values does what a loop with their number does.

## Main definitions

* `leadingNames` - the names that are looked up for tags

Main statement: `Render.node_transparent`.
-/

namespace Stencil

/-- The first names of the paths that tags look up. -/
def leadingNames (helpers : Registry) (row : List Piece) : List String :=
  (row.flatMap (Piece.pathsRead helpers)).filterMap (·.segments.head?)

/-- A value without these names answers none of the paths. -/
theorem SelfContained.skips {helpers : Registry} {row : List Piece} {value : Value}
    (h : SelfContained helpers Path.IsName row)
    (hlacks : ∀ name ∈ leadingNames helpers row, value.field? name = none) :
    SelfContained helpers (·.Skips value) row := by
  intro piece hpiece
  obtain ⟨hpartial, hfragment, hpaths⟩ := h piece hpiece
  refine ⟨hpartial, hfragment, fun p hp => ⟨hpaths p hp, fun name hname => hlacks name ?_⟩⟩
  exact List.mem_filterMap.2 ⟨p, List.mem_flatMap.2 ⟨piece, hpiece, hp⟩, hname⟩

namespace Render

variable {env : RenderEnv}

/-- In a frame that its paths skip a step gives what it gives without the frame. -/
theorem within_of_skips {x : Render String} (frame : Frame) (hbalanced : Balanced x)
    (hx : Transfers (·.Skips frame.value) x) (st : RenderState) :
    within (some frame) x st = x st :=
  within_eq_of_agree hbalanced hx st none (some frame) (st.scope.agreeOn_push frame)

/-- **Frames that lack a name are transparent.** With the built-in helpers and in every state of a
render, let a body have neither partials nor `invoke`, and let all its paths start with names: they
have no mark of data variables, no steps outwards, and do not mean the current value.

* In a true value that has none of the first names of these paths as a field, `with` gives what
  `if true` gives with the same main body.
* Over a list of values that all lack these fields, `each` gives what `repeat` gives with the number
  of the values.

The text or the error is the same, and so is the state behind it. -/
theorem node_transparent (hhelpers : env.helpers = Registry.builtin) (levels : Nat)
    (st : RenderState) {body : List Node}
    (hbody : SelfContained env.helpers Path.IsName (nodesPieces body))
    (others others' : List (Branch Node)) :
    (∀ (withTag : Guard "with") (ifTag : Guard "if"),
      (st.scope.resolveParam withTag.condition).isTruthy →
      (∀ name ∈ leadingNames env.helpers (nodesPieces body),
        (st.scope.resolveParam withTag.condition).field? name = none) →
      ifTag.condition = .literal (.bool true) →
      node env (nested env levels) (.block withTag.call (⟨none, body⟩ :: others)) st =
        node env (nested env levels) (.block ifTag.call (⟨none, body⟩ :: others')) st) ∧
    ∀ (eachTag : Guard "each") (repeatTag : Guard "repeat") (items : List Value),
      st.scope.resolveParam eachTag.condition = .list items →
      1 ≤ items.length → items.length ≤ Helper.maxRepeat →
      (∀ item ∈ items, ∀ name ∈ leadingNames env.helpers (nodesPieces body),
        item.field? name = none) →
      st.scope.resolveParam repeatTag.condition = .ofNat items.length →
      node env (nested env levels) (.block eachTag.call (⟨none, body⟩ :: others)) st =
        node env (nested env levels) (.block repeatTag.call (⟨none, body⟩ :: others')) st := by
  have hbalanced : Balanced (nested env levels body) := .nested env levels body
  have hskips {value : Value}
      (hlacks : ∀ name ∈ leadingNames env.helpers (nodesPieces body), value.field? name = none) :
      Transfers (·.Skips value) (nested env levels body) :=
    .nested hhelpers levels (hbody.skips hlacks)
  constructor
  · intro withTag ifTag htrue hlacks htag
    rw [node_with hhelpers, node_if hhelpers, htag]
    dsimp only
    rw [if_pos htrue]
    exact within_of_skips ⟨_, none⟩ hbalanced (hskips hlacks) st
  · intro eachTag repeatTag items hlist hpos hlimit hlacks hcount
    have hne : (Value.list items).elements ≠ [] := List.ne_nil_of_length_pos hpos
    rw [node_each_of_ne hhelpers eachTag _ hlist hne,
      node_repeat hhelpers repeatTag _ hcount hlimit]
    have hlength : (Helper.turns st.scope.dataVariables (.list items)).length = items.length :=
      Helper.length_turns _ _
    rw [← hlength, ← List.map_const']
    refine loop_congr hbalanced ?_ rfl
    rw [List.forall₂_map_left_iff, List.forall₂_same]
    intro turn hturn mid _
    obtain ⟨frame, rfl, hvalue⟩ := Helper.exists_of_mem_turns hturn
    exact within_of_skips frame hbalanced (hskips (hlacks frame.value hvalue)) mid

/-- A list as a frame, and a loop over values of three kinds, around a body with a block for a
variable, a comparison, a fragment and a path that leads nowhere. -/
theorem node_transparent_list :
    let path (names : List String) : Path := ⟨".".intercalate names, false, 0, names, none⟩
    let call (name : String) (param : Param) : Call := ⟨name, path [name], [param], [], 1⟩
    let tag (name : String) (param : Param) : Guard name := ⟨call name param, param, rfl, rfl⟩
    let read (names : List String) : Node := .output ⟨(path names).raw, path names, [], [], 1⟩ true
    let env : RenderEnv := ⟨Registry.builtin, .verbatim, id⟩
    let items : List Value := [.null, .map [("b", .int 1)], .str "x"]
    let st : RenderState :=
      ⟨⟨[⟨.map [("u", .map [("n", .int 2)])], none⟩], .map [("list", .list items), ("n", .int 1)],
        true⟩, [], 61, .none⟩
    let body : List Node :=
      [.block ⟨"u", path ["u"], [], [], 1⟩
        [⟨none, [.block (tag "if" (.comparison ⟨.path (path ["n"]), .gt, .number "1"⟩)).call
          [⟨none, [read ["n"], .text ","]⟩]]⟩], read ["u", "missing"],
        .block (call "define" (.path (path ["f"]))) [⟨none, [read ["n"]]⟩], read ["n"], .text ";"]
    let main : List (Branch Node) := [⟨none, body⟩]
    let list : Param := .path (path ["list"])
    let below := nested env maxDepth
    SelfContained env.helpers Path.IsName (nodesPieces body) ∧
      leadingNames env.helpers (nodesPieces body) = ["u", "n", "n", "u", "f", "n", "n"] ∧
      node env below (.block (tag "with" list).call main) st =
        node env below (.block (tag "if" (.literal (.bool true))).call main) st ∧
      (node env below (.block (tag "with" list).call main) st).1.toOption = some "2,1;" ∧
      node env below (.block (tag "each" list).call main) st =
        node env below (.block (tag "repeat" (.literal (.int 3))).call main) st ∧
      (node env below (.block (tag "each" list).call main) st).1.toOption =
        some "2,1;2,1;2,1;" := by
  intro path call tag read env items st body main list below
  have hhelpers : env.helpers = Registry.builtin := rfl
  have hbody : SelfContained env.helpers Path.IsName (nodesPieces body) := by decide +kernel
  have hnames : leadingNames env.helpers (nodesPieces body) =
      ["u", "n", "n", "u", "f", "n", "n"] := by decide +kernel
  have hlacks {value : Value} (hu : value.field? "u" = none) (hn : value.field? "n" = none)
      (hf : value.field? "f" = none) :
      ∀ name ∈ leadingNames env.helpers (nodesPieces body), value.field? name = none := by
    rw [hnames]
    simp [hu, hn, hf]
  obtain ⟨hwith, heach⟩ := node_transparent hhelpers maxDepth st hbody [] []
  refine ⟨hbody, hnames, hwith (tag "with" list) (tag "if" _) rfl (hlacks rfl rfl rfl) rfl,
    by decide +kernel, ?_, by decide +kernel⟩
  refine heach (tag "each" list) (tag "repeat" _) items rfl (by decide) (by decide) ?_ rfl
  intro item hitem
  rcases List.mem_cons.1 hitem with rfl | hitem
  · exact hlacks rfl rfl rfl
  · rcases List.mem_cons.1 hitem with rfl | hitem
    · exact hlacks rfl rfl rfl
    · obtain rfl := List.mem_singleton.1 hitem
      exact hlacks rfl rfl rfl

end Render

end Stencil
