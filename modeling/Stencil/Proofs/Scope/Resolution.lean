import Stencil.Scope

/-!
# Which frame answers a path

Blocks enter frames and leave them again, and the frame of the whole data always stays at the
bottom. A path without the mark of data variables is answered from one frame: with steps outwards
from the frame that many steps out, and otherwise from the innermost frame that has the field of its
first name. No other frame counts, and no variables of loops do.

## Main definitions

* `Scope.Move`, `Scope.follow` - entering and leaving frames, one after another
* `Scope.values`, `Scope.turnVars` - the values of the frames, and the variables of their loops, the
  innermost frame first
* `Scope.Decides` - the frame that decides about a name

Main statement: `Scope.resolve?_follow`.
-/

namespace Stencil

namespace Scope

/-- What blocks do to a scope: they enter a frame, or leave the innermost one. -/
inductive Move where
  | push (frame : Frame)
  | pop

/-- The scope behind a move. -/
def move (s : Scope) : Move → Scope
  | .push frame => s.push frame
  | .pop => s.pop

/-- The scope behind moves, one after another. -/
def follow (s : Scope) (moves : List Move) : Scope :=
  moves.foldl move s

/-- The values of the frames, the innermost one first and the whole data last. -/
def values (s : Scope) : List Value :=
  s.frames.map Frame.value

/-- The variables of the frames, the innermost frame first and that of the whole data, which has
none, last. -/
def turnVars (s : Scope) : List (Option LoopVars) :=
  s.frames.map Frame.vars

/-- The frame that decides about a name: it has the field, and none of the frames inside of it
does. -/
structure Decides (s : Scope) (name : String) (inside : List Frame) (frame : Frame)
    (outside : List Frame) : Prop where
  frames : s.frames = inside ++ frame :: outside
  lacks : ∀ other ∈ inside, other.value.field? name = none
  has : (frame.value.field? name).isSome

variable {s s' : Scope} {p : Path} {name : String} {inside outside : List Frame} {frame : Frame}

/-! ### The bottom of the stack -/

theorem move_root (s : Scope) (m : Move) :
    (s.move m).root = s.root ∧ (s.move m).dataVariables = s.dataVariables := by
  cases m with
  | push frame => exact ⟨rfl, rfl⟩
  | pop => exact ⟨rfl, rfl⟩

/-- Whatever is entered and left, the whole data and the setting stay the same. -/
theorem follow_root (s : Scope) (moves : List Move) :
    (s.follow moves).root = s.root ∧ (s.follow moves).dataVariables = s.dataVariables := by
  induction moves generalizing s with
  | nil => exact ⟨rfl, rfl⟩
  | cons m moves ih =>
    obtain ⟨hroot, hvariables⟩ := s.move_root m
    obtain ⟨hroot', hvariables'⟩ := ih (s.move m)
    exact ⟨hroot'.trans hroot, hvariables'.trans hvariables⟩

theorem mem_inner_move {m : Move} (h : frame ∈ (s.move m).inner) :
    frame ∈ s.inner ∨ m = .push frame := by
  cases m with
  | push entered =>
    rcases List.mem_cons.1 h with rfl | h
    · exact .inr rfl
    · exact .inl h
  | pop => exact .inl (List.mem_of_mem_tail h)

/-- The frames above the whole data are such as have been entered. -/
theorem mem_inner_follow {moves : List Move} (h : frame ∈ (s.follow moves).inner) :
    frame ∈ s.inner ∨ .push frame ∈ moves := by
  induction moves generalizing s with
  | nil => exact .inl h
  | cons m moves ih =>
    rcases ih h with hfirst | hlater
    · rcases mem_inner_move hfirst with hstart | rfl
      · exact .inl hstart
      · exact .inr (.head _)
    · exact .inr (.tail _ hlater)

theorem getLast?_frames (s : Scope) : s.frames.getLast? = some ⟨s.root, none⟩ := by
  rw [frames, List.getLast?_concat]

/-! ### Values are all that counts -/

theorem values_push (s : Scope) (frame : Frame) :
    (s.push frame).values = frame.value :: s.values := rfl

theorem getElem?_values (i : Nat) : s.values[i]? = s.frames[i]?.map Frame.value := by
  rw [values, List.getElem?_map]

theorem join_getElem?_turnVars (s : Scope) (steps : Nat) :
    s.turnVars[steps]?.join = (s.ancestor? steps).bind Frame.vars := by
  rw [turnVars, List.getElem?_map, ancestor?]
  cases s.frames[steps]? with
  | none => rfl
  | some frame => rfl

theorem current_eq_head? (s : Scope) : some s.current = s.values.head? := by
  unfold current values frames
  cases s.inner with
  | nil => rfl
  | cons frame inner => rfl

/-- A path without the mark of data variables is answered from the values of the frames alone. -/
theorem resolveName?_eq (s : Scope) (hp : p.data = false) :
    s.resolveName? p =
      if 0 < p.depth then s.values[p.depth]?.bind (·.walk? p.segments)
      else
        match p.segments with
        | [] => s.values.head?
        | name :: names => (s.values.findSome? (·.field? name)).bind (·.walk? names) := by
  unfold resolveName?
  split
  · rw [values, List.getElem?_map, Option.bind_map]
    rfl
  · next hsteps =>
    have hthis : p.isThis = p.segments.isEmpty := by
      simp [Path.isThis, hp, Nat.eq_zero_of_not_pos hsteps]
    rw [hthis]
    cases p.segments with
    | nil => exact s.current_eq_head?
    | cons name names =>
      show (s.frames.findSome? _).bind _ = ((s.frames.map Frame.value).findSome? _).bind _
      rw [List.findSome?_map]
      rfl

theorem resolve?_eq_resolveName? (hp : p.data = false) : s.resolve? p = s.resolveName? p := by
  simp only [resolve?, hp, Bool.false_eq_true, if_false]

theorem resolve?_congr (hvalues : s'.values = s.values) (hp : p.data = false) :
    s'.resolve? p = s.resolve? p := by
  rw [resolve?_eq_resolveName? hp, resolve?_eq_resolveName? hp, resolveName?_eq s hp,
    resolveName?_eq s' hp, hvalues]

/-! ### Paths with steps outwards -/

/-- A path with steps outwards is answered from the frame that many steps out. -/
theorem resolve?_of_steps (hp : p.data = false) (hsteps : 0 < p.depth) :
    s.resolve? p = s.values[p.depth]?.bind (·.walk? p.segments) := by
  rw [resolve?_eq_resolveName? hp, resolveName?_eq s hp, if_pos hsteps]

/-! ### Paths with a name in front -/

/-- A path with a name in front is answered from the innermost value that has the field. -/
theorem resolve?_of_name {names : List String} (hp : p.data = false) (hsteps : p.depth = 0)
    (hsegments : p.segments = name :: names) :
    s.resolve? p = (s.values.findSome? (·.field? name)).bind (·.walk? names) := by
  rw [resolve?_eq_resolveName? hp, resolveName?_eq s hp, hsteps, if_neg (Nat.lt_irrefl 0), hsegments]

theorem findSome?_eq_none_of_lacks {frames : List Frame}
    (h : ∀ other ∈ frames, other.value.field? name = none) :
    (frames.map Frame.value).findSome? (·.field? name) = none := by
  rw [List.findSome?_eq_none_iff]
  intro value hvalue
  obtain ⟨other, hother, rfl⟩ := List.mem_map.1 hvalue
  exact h other hother

/-- The first field of a name that is found from the innermost frame outwards is that of the frame
that decides. -/
theorem Decides.findSome? (h : s.Decides name inside frame outside) :
    s.values.findSome? (·.field? name) = frame.value.field? name := by
  obtain ⟨field, hfield⟩ := Option.isSome_iff_exists.1 h.has
  rw [values, h.frames, List.map_append, List.findSome?_append,
    findSome?_eq_none_of_lacks h.lacks, Option.none_or, List.map_cons, List.findSome?_cons, hfield]

/-- A path with a name in front is answered from the frame that decides about the name, whatever the
frames outside of it have. -/
theorem Decides.resolve? {names : List String} (h : s.Decides name inside frame outside)
    (hp : p.data = false) (hsteps : p.depth = 0) (hsegments : p.segments = name :: names) :
    s.resolve? p = frame.value.walk? (name :: names) := by
  rw [resolve?_of_name hp hsteps hsegments, h.findSome?]
  rfl

theorem resolve?_of_lacks {names : List String}
    (h : ∀ other ∈ s.frames, other.value.field? name = none) (hp : p.data = false)
    (hsteps : p.depth = 0) (hsegments : p.segments = name :: names) : s.resolve? p = none := by
  rw [resolve?_of_name hp hsteps hsegments, values, findSome?_eq_none_of_lacks h, Option.bind_none]

/-- **One frame answers a path.** Behind any moves from the scope of the whole data, this is still
at the bottom, unchanged, and the other frames are such as have been entered. A path without the
mark of data variables is answered by following all its segments in a single frame: with steps
outwards in the frame that many steps out, and otherwise in the frame that decides about its first
name, even if that leads nowhere and a frame further out has it all. Where there is no such frame,
the path means nothing. As long as the value of this frame is the same, and the frames inside of the
deciding one lack its field, all other frames, all variables of loops and the setting may change. -/
theorem resolve?_follow (root : Value) (dataVariables : Bool) (moves : List Move) {p : Path}
    (hp : p.data = false) :
    let s := (ofRoot root dataVariables).follow moves
    (s.frames.getLast? = some ⟨root, none⟩ ∧ ∀ frame ∈ s.inner, Move.push frame ∈ moves) ∧
    (0 < p.depth →
      (∀ frame, s.frames[p.depth]? = some frame →
        s.resolve? p = frame.value.walk? p.segments) ∧
      (s.frames.length ≤ p.depth → s.resolve? p = none) ∧
      ∀ s' : Scope, s'.values[p.depth]? = s.values[p.depth]? → s'.resolve? p = s.resolve? p) ∧
    (p.depth = 0 → ∀ name names, p.segments = name :: names →
      ((∀ frame ∈ s.frames, frame.value.field? name = none) → s.resolve? p = none) ∧
      ∀ inside frame outside, s.Decides name inside frame outside →
        s.resolve? p = frame.value.walk? p.segments ∧
          ∀ (s' : Scope) inside' frame' outside', s'.Decides name inside' frame' outside' →
            frame'.value = frame.value → s'.resolve? p = s.resolve? p) := by
  intro s
  refine ⟨⟨?_, fun frame hframe => ?_⟩, fun hsteps => ⟨fun frame hframe => ?_, fun hheight => ?_,
    fun s' hvalue => ?_⟩, fun hsteps name names hsegments => ⟨fun hlacks => ?_,
    fun inside frame outside hdecides => ⟨?_,
      fun s' inside' frame' outside' hdecides' hvalue => ?_⟩⟩⟩
  · rw [getLast?_frames, (follow_root _ moves).1]
    rfl
  · rcases mem_inner_follow hframe with hstart | hmove
    · exact absurd hstart List.not_mem_nil
    · exact hmove
  · rw [resolve?_of_steps hp hsteps, getElem?_values, hframe]
    rfl
  · rw [resolve?_of_steps hp hsteps, getElem?_values, List.getElem?_eq_none hheight]
    rfl
  · rw [resolve?_of_steps hp hsteps, resolve?_of_steps hp hsteps, hvalue]
  · exact resolve?_of_lacks hlacks hp hsteps hsegments
  · rw [hdecides.resolve? hp hsteps hsegments, hsegments]
  · rw [hdecides'.resolve? hp hsteps hsegments, hdecides.resolve? hp hsteps hsegments, hvalue]

/-- A frame in between has the first name and not the second one, which the whole data has. -/
theorem resolve?_follow_shadowed :
    let root : Value := .map [("a", .map [("b", .int 1)])]
    let middle : Frame := ⟨.map [("a", .map [("c", .int 2)])], none⟩
    let top : Frame := ⟨.list [.null], some (LoopVars.iteration 0 1 none true)⟩
    let s := (ofRoot root true).follow [.pop, .push middle, .push top, .push top, .pop]
    let p : Path := ⟨"a.b", false, 0, ["a", "b"], none⟩
    s.Decides "a" [top] middle [⟨root, none⟩] ∧
      s.resolve? p = middle.value.walk? p.segments ∧ middle.value.walk? p.segments = none ∧
        root.walk? p.segments = some (.int 1) := by
  intro root middle top s p
  have hdecides : s.Decides "a" [top] middle [⟨root, none⟩] :=
    ⟨rfl, List.forall_mem_singleton.2 rfl, rfl⟩
  obtain ⟨-, -, hname⟩ := resolve?_follow root true [.pop, .push middle, .push top, .push top, .pop]
    (show p.data = false from rfl)
  exact ⟨hdecides, ((hname rfl "a" ["b"] rfl).2 _ _ _ hdecides).1, rfl, rfl⟩

end Scope

end Stencil
