import Mathlib.Data.List.Forall2
import Stencil.Helper.Builtin
import Stencil.Proofs.Number.Whole

/-!
# The turns of loops

A loop over a list has a turn for each element, and a loop over a map one for each entry. The turn
knows its position, whether it is the first or the last one, and its key. A loop with a count has
as many turns as the count says.

## Main definitions

* `Value.elements` - the elements of a list, and the values in a map
* `Value.keyAt?` - the name of an entry of a map

Main statements: `Helper.getElem?_turns`, `Helper.turns_slice`, `Helper.repeatCount_ofNat`.
-/

namespace Stencil

namespace Value

/-- The elements of a list, and the values of the entries of a map. -/
def elements : Value → List Value
  | .list items => items
  | .map entries => entries.map Prod.snd
  | _ => []

/-- The name of an entry of a map. -/
def keyAt? (position : Nat) : Value → Option String
  | .map entries => entries[position]?.map Prod.fst
  | _ => none

/-- A slice has some of the elements, in their order. -/
theorem elements_slice (start count : Nat) (value : Value) :
    (value.slice start count).elements = (value.elements.drop start).take count := by
  cases value with
  | list items => rfl
  | map entries => simp [slice, elements]
  | _ => simp [slice, elements]

theorem number?_ofNat {n : Nat} (h : n < 2 ^ 63) :
    (ofNat n).number? = some (Number.ofInt n) := by
  have hint : (Int64.ofNat n).toInt = n := Int64.toInt_ofNat_of_lt h
  rw [ofNat, if_pos (show n < Nat.pow 2 63 from h)]
  exact congrArg (fun k => some (Number.ofInt k)) hint

end Value

namespace Helper

/-! ### Lists and maps -/

/-- The turn at a position. -/
theorem getElem?_turns (enabled : Bool) (value : Value) (i : Nat) :
    (turns enabled value)[i]? = value.elements[i]?.map fun item =>
      some ⟨item, some (LoopVars.iteration i value.elements.length (value.keyAt? i) enabled)⟩ := by
  cases value with
  | list items => exact List.getElem?_mapIdx
  | map entries =>
    simp only [turns, Value.elements, Value.keyAt?, List.getElem?_mapIdx, List.getElem?_map,
      List.length_map, Option.map_map]
    cases entries[i]? with
    | none => rfl
    | some entry => rfl
  | _ => rfl

/-- The turns enter the elements. -/
theorem map_value_turns (enabled : Bool) (value : Value) :
    (turns enabled value).map (Option.map Frame.value) = value.elements.map some := by
  refine List.ext_getElem? fun i => ?_
  rw [List.getElem?_map, List.getElem?_map, getElem?_turns, Option.map_map]
  rfl

/-- Frames with the same values, one after another. -/
theorem forall₂_of_values {frames frames' : List (Option Frame)}
    (h : frames.map (Option.map Frame.value) = frames'.map (Option.map Frame.value)) :
    List.Forall₂ (Option.Rel fun frame frame' : Frame => frame'.value = frame.value)
      frames frames' := by
  rw [← List.forall₂_eq_eq_eq, List.forall₂_map_left_iff, List.forall₂_map_right_iff] at h
  refine h.imp fun frame frame' hvalue => ?_
  cases frame with
  | none =>
    cases frame' with
    | none => exact .none
    | some frame' => cases hvalue
  | some frame =>
    cases frame' with
    | none => cases hvalue
    | some frame' => exact .some (Option.some.inj hvalue).symm

/-- The turns of a loop enter the same values, whatever the setting is. -/
theorem forall₂_turns (enabled enabled' : Bool) (value : Value) :
    List.Forall₂ (Option.Rel fun frame frame' : Frame => frame'.value = frame.value)
      (turns enabled value) (turns enabled' value) :=
  forall₂_of_values ((map_value_turns enabled value).trans (map_value_turns enabled' value).symm)

/-- Each turn enters a frame. -/
theorem exists_of_mem_turns {enabled : Bool} {value : Value} {turn : Option Frame}
    (h : turn ∈ turns enabled value) :
    ∃ frame, turn = some frame ∧ frame.value ∈ value.elements := by
  obtain ⟨i, hi⟩ := List.mem_iff_getElem?.1 h
  rw [getElem?_turns] at hi
  obtain ⟨item, hitem, rfl⟩ := Option.map_eq_some_iff.1 hi
  exact ⟨_, rfl, List.mem_of_getElem? hitem⟩

theorem length_turns (enabled : Bool) (value : Value) :
    (turns enabled value).length = value.elements.length := by
  simpa using congrArg List.length (map_value_turns enabled value)

/-- The turns over a slice enter what the turns in the range do. -/
theorem turns_slice (enabled : Bool) (value : Value) (start count : Nat) :
    (turns enabled (value.slice start count)).map (Option.map Frame.value) =
      (((turns enabled value).drop start).take count).map (Option.map Frame.value) := by
  rw [map_value_turns, Value.elements_slice, List.map_take, List.map_drop, List.map_take,
    List.map_drop, map_value_turns]

/-- `each` iterates what has elements, and only that. -/
theorem each_next (call : Invocation) (value : Value) :
    (if value.isBlank || !isCollection value then Program.inverse none else iterate call value) =
      if value.elements = [] then Program.inverse none else iterate call value := by
  cases value with
  | list items =>
    cases items with
    | nil => rfl
    | cons item items => rfl
  | map entries =>
    cases entries with
    | nil => rfl
    | cons entry entries => rfl
  | str text =>
    show (if ((text == "") || true) = true then _ else _) = _
    rw [Bool.or_true]
    rfl
  | _ => rfl

/-! ### Counts -/

/-- A whole number up to the greatest count is the count itself. -/
theorem repeatCount_ofNat {n : Nat} (h : n ≤ maxRepeat) : repeatCount (.ofNat n) = .ok n := by
  have hlimit : maxRepeat < 2 ^ 53 := by decide
  have hnumber : (Value.ofNat n).number? = some (Number.ofInt n) := Value.number?_ofNat (by omega)
  have hallowed : ¬ Number.ofInt n > Number.ofInt maxRepeat := Number.not_ofInt_lt h hlimit
  rw [repeatCount, hnumber]
  dsimp only [Option.getD_some]
  rw [if_neg hallowed, Number.truncate_ofInt (Nat.lt_of_le_of_lt h hlimit)]

end Helper

end Stencil
