import Mathlib.Data.List.Forall2
import Stencil.Proofs.Number.Numerals
import Stencil.Scope

/-!
# Integers and their texts in comparisons

Comparisons do not see whether a number of the data is an integer or the text of one. Where some of
the integers are replaced by their texts, at any depth of the values of a scope, every path means
the same up to such replacements; and a value that is replaced has the text and the numeric view
that it had before, since the text of an integer is read as the double that the integer is
converted to.

## Main definitions

* `Value.Respelled` - some of the integers of a value are replaced by their texts
* `Scope.Respelled` - the same for the values of all frames of a scope

Main statements: `Value.Respelled.text_eq`, `Value.Respelled.number?_eq`,
`Scope.Respelled.operandValue`, `Scope.holds_of_respelled`.
-/

namespace Stencil

/-! ### Related results -/

section Related

variable {α β α' β' : Type} {R : α → α' → Prop} {S : β → β' → Prop}

theorem rel_refl {R : α → α → Prop} (hrefl : ∀ x, R x x) (a : Option α) : Option.Rel R a a := by
  cases a with
  | none => exact .none
  | some x => exact .some (hrefl x)

theorem rel_bind {a : Option α} {a' : Option α'} (h : Option.Rel R a a') {f : α → Option β}
    {f' : α' → Option β'} (hf : ∀ {x x'}, R x x' → Option.Rel S (f x) (f' x')) :
    Option.Rel S (a.bind f) (a'.bind f') := by
  cases h with
  | none => exact .none
  | some hx => exact hf hx

theorem rel_map {a : Option α} {a' : Option α'} (h : Option.Rel R a a') {f : α → β}
    {f' : α' → β'} (hf : ∀ {x x'}, R x x' → S (f x) (f' x')) :
    Option.Rel S (a.map f) (a'.map f') := by
  cases h with
  | none => exact .none
  | some hx => exact .some (hf hx)

theorem rel_getD {a : Option α} {a' : Option α'} (h : Option.Rel R a a') {x : α} {x' : α'}
    (hx : R x x') : R (a.getD x) (a'.getD x') := by
  cases h with
  | none => exact hx
  | some hfound => exact hfound

theorem rel_getElem? {items : List α} {items' : List α'} (h : List.Forall₂ R items items')
    (i : Nat) : Option.Rel R items[i]? items'[i]? := by
  induction h generalizing i with
  | nil => exact .none
  | cons hitem _ ih =>
    cases i with
    | zero => exact .some hitem
    | succ i => exact ih i

/-- The first results are related if the results are related one by one. -/
theorem rel_findSome? {items : List α} {items' : List α'} (h : List.Forall₂ R items items')
    {f : α → Option β} {f' : α' → Option β'}
    (hf : ∀ {x x'}, R x x' → Option.Rel S (f x) (f' x')) :
    Option.Rel S (items.findSome? f) (items'.findSome? f') := by
  induction h with
  | nil => exact .none
  | @cons x x' items items' hitem _ ih =>
    rw [List.findSome?_cons, List.findSome?_cons]
    generalize hresult : f x = result
    generalize hresult' : f' x' = result'
    have hfirst : Option.Rel S result result' := hresult ▸ hresult' ▸ hf hitem
    cases hfirst with
    | none => exact ih
    | some hfound => exact .some hfound

theorem Entries.rel_find? {R : α → α → Prop} {entries entries' : Entries α}
    (h : List.Forall₂ (Prod.RProd Eq R) entries entries') (name : String) :
    Option.Rel R (entries.find? name) (entries'.find? name) := by
  induction h with
  | nil => exact .none
  | cons hentry _ ih =>
    obtain ⟨rfl, hvalue⟩ := hentry
    unfold find?
    split
    · exact .some hvalue
    · exact ih

end Related

/-! ### Values -/

/-- Some of the integers of a value, at any depth of its lists and maps, are replaced by their
texts. -/
inductive Value.Respelled : Value → Value → Prop where
  | refl (value : Value) : Respelled value value
  | int (n : Int64) : Respelled (.int n) (.str (Number.intText n.toInt))
  | list {items items' : List Value} (h : List.Forall₂ Respelled items items') :
      Respelled (.list items) (.list items')
  | map {entries entries' : Entries Value}
      (h : List.Forall₂ (Prod.RProd Eq Respelled) entries entries') :
      Respelled (.map entries) (.map entries')

/-- The text of an integer has the numeric view of the integer. -/
theorem Value.number?_intText (n : Int) :
    (Value.str (Number.intText n)).number? = some (Number.ofInt n) := by
  rw [number?, Number.trim_intText, Number.Numeral.read?_intText, Option.map_some,
    Number.Numeral.toFloat_integer]

namespace Value.Respelled

mutual

/-- A value that is replaced has the text that it had before. -/
theorem text_eq {value value' : Value} : Respelled value value' → value'.text = value.text
  | .refl _ => rfl
  | .int _ => rfl
  | .list h => listText_eq h
  | .map _ => rfl

theorem listText_eq {items items' : List Value} :
    List.Forall₂ Respelled items items' → listText items' = listText items
  | .nil => rfl
  | .cons hitem .nil => text_eq hitem
  | .cons hitem (.cons hnext hitems) =>
    congrArg₂ (fun first rest => first ++ "," ++ rest) (text_eq hitem)
      (listText_eq (.cons hnext hitems))

end

variable {value value' : Value}

theorem number?_eq (h : Respelled value value') : value'.number? = value.number? := by
  cases h with
  | refl => rfl
  | int n => exact number?_intText n.toInt
  | list => rfl
  | map => rfl

theorem field? (h : Respelled value value') (name : String) :
    Option.Rel Respelled (value.field? name) (value'.field? name) := by
  cases h with
  | refl => exact rel_refl refl _
  | int => exact .none
  | list hitems =>
    unfold Value.field?
    cases Number.readNatural? (Nat.pow 2 64) name.toList with
    | none => exact .none
    | some i => exact rel_getElem? hitems i
  | map hentries => exact Entries.rel_find? hentries name

theorem walk? (h : Respelled value value') (names : List String) :
    Option.Rel Respelled (value.walk? names) (value'.walk? names) := by
  induction names generalizing value value' with
  | nil => exact .some h
  | cons name names ih => exact rel_bind (h.field? name) ih

theorem slice (h : Respelled value value') (start count : Nat) :
    Respelled (value.slice start count) (value'.slice start count) := by
  cases h with
  | refl => exact .refl _
  | int n => exact .int n
  | list hitems => exact .list (List.forall₂_take _ (List.forall₂_drop _ hitems))
  | map hentries => exact .map (List.forall₂_take _ (List.forall₂_drop _ hentries))

theorem sliced (h : Respelled value value') (p : Path) :
    Respelled (Scope.sliced p value) (Scope.sliced p value') := by
  unfold Scope.sliced
  cases p.slice with
  | none => exact h
  | some s => exact h.slice _ _

end Value.Respelled

/-! ### Scopes -/

/-- Some of the integers in the variables of a loop are replaced by their texts. -/
structure LoopVars.Respelled (vars vars' : LoopVars) : Prop where
  index : vars.index.Respelled vars'.index
  key : Option.Rel Value.Respelled vars.key vars'.key
  first : Option.Rel Value.Respelled vars.first vars'.first
  last : Option.Rel Value.Respelled vars.last vars'.last

theorem LoopVars.Respelled.get? {vars vars' : LoopVars} (h : vars.Respelled vars')
    (name : String) : Option.Rel Value.Respelled (vars.get? name) (vars'.get? name) := by
  unfold LoopVars.get?
  split_ifs
  · exact .some h.index
  · exact h.key
  · exact h.first
  · exact h.last
  · exact .none

/-- Some of the integers of a frame are replaced by their texts. -/
structure Frame.Respelled (frame frame' : Frame) : Prop where
  value : frame.value.Respelled frame'.value
  vars : Option.Rel LoopVars.Respelled frame.vars frame'.vars

namespace Scope

variable {s s' : Scope}

/-- Some of the integers in the frames of a scope are replaced by their texts. -/
structure Respelled (s s' : Scope) : Prop where
  inner : List.Forall₂ Frame.Respelled s.inner s'.inner
  root : s.root.Respelled s'.root
  dataVariables : s'.dataVariables = s.dataVariables

namespace Respelled

theorem frames (h : s.Respelled s') : List.Forall₂ Frame.Respelled s.frames s'.frames :=
  List.rel_append h.inner (.cons ⟨h.root, .none⟩ .nil)

theorem current (h : s.Respelled s') : s.current.Respelled s'.current := by
  obtain ⟨inner, root, enabled⟩ := s
  obtain ⟨inner', root', enabled'⟩ := s'
  obtain ⟨hinner, hroot, -⟩ := h
  cases hinner with
  | nil => exact hroot
  | cons hframe _ => exact hframe.value

theorem ancestor? (h : s.Respelled s') (steps : Nat) :
    Option.Rel Frame.Respelled (s.ancestor? steps) (s'.ancestor? steps) :=
  rel_getElem? h.frames steps

theorem resolveDataField? (h : s.Respelled s') (p : Path) :
    Option.Rel Value.Respelled (s.resolveDataField? p) (s'.resolveDataField? p) := by
  refine rel_bind (h.ancestor? p.depth) fun hframe => ?_
  cases p.segments with
  | nil => exact .none
  | cons name names => exact rel_bind (hframe.value.field? _) fun hvalue => hvalue.walk? names

theorem resolveData? (h : s.Respelled s') (p : Path) :
    Option.Rel Value.Respelled (s.resolveData? p) (s'.resolveData? p) := by
  refine rel_bind (h.ancestor? p.depth) fun {frame frame'} hframe => ?_
  cases p.segments with
  | nil => exact .none
  | cons name names =>
    dsimp only
    -- In both scopes the loop has a variable of this name, or in none of them.
    have hvariable : Option.Rel Value.Respelled (frame.vars.bind (·.get? name))
        (frame'.vars.bind (·.get? name)) := rel_bind hframe.vars fun hvars => hvars.get? name
    generalize frame.vars.bind (·.get? name) = found at hvariable ⊢
    generalize frame'.vars.bind (·.get? name) = found' at hvariable ⊢
    cases hvariable with
    | some hvalue => exact hvalue.walk? names
    | none =>
      dsimp only
      rw [h.dataVariables]
      split
      · exact .none
      · exact rel_bind (hframe.value.field? _) fun hvalue => hvalue.walk? names

theorem resolveName? (h : s.Respelled s') (p : Path) :
    Option.Rel Value.Respelled (s.resolveName? p) (s'.resolveName? p) := by
  unfold Scope.resolveName?
  split
  · exact rel_bind (h.ancestor? p.depth) fun hframe => hframe.value.walk? _
  · split
    · exact .some h.current
    · cases p.segments with
      | nil => exact .none
      | cons name names =>
        have hfirst := rel_findSome? h.frames fun hframe => hframe.value.field? name
        exact rel_bind hfirst fun hvalue => hvalue.walk? names

/-- What a path means in the one scope is respelled in the other one. -/
theorem resolve? (h : s.Respelled s') (p : Path) :
    Option.Rel Value.Respelled (s.resolve? p) (s'.resolve? p) := by
  unfold Scope.resolve?
  split
  · exact h.resolveData? p
  · exact h.resolveName? p

/-- The value of an operand in the one scope is respelled in the other one. -/
theorem operandValue (h : s.Respelled s') (operand : Operand) :
    (s.operandValue operand).Respelled (s'.operandValue operand) := by
  cases operand with
  | str text => exact .refl _
  | number text => exact .refl _
  | path p =>
    have hfound : Option.Rel Value.Respelled
        (if p.data && !s.dataVariables then s.resolveDataField? p else s.resolve? p)
        (if p.data && !s'.dataVariables then s'.resolveDataField? p else s'.resolve? p) := by
      rw [h.dataVariables]
      split
      · exact h.resolveDataField? p
      · exact h.resolve? p
    exact rel_getD (rel_map hfound fun hvalue => hvalue.sliced p) (.refl .null)

end Respelled

/-- **Integers and their texts.** Where some of the integers in the frames of a scope, at any depth
of their lists and maps, are replaced by their texts, every comparison holds as it did before. -/
theorem holds_of_respelled (h : s.Respelled s') (c : Comparison) : s'.holds c = s.holds c := by
  have hleft := h.operandValue c.left
  have hright := h.operandValue c.right
  -- Operators see nothing of the two sides but their numeric views and their texts.
  simp only [holds, Operator.holds, hleft.number?_eq, hright.number?_eq, hleft.text_eq,
    hright.text_eq]

/-- The least integer is below the greatest one, which stands in a map, also if both are texts. -/
theorem holds_of_respelled_extremes :
    let s (least greatest : Value) : Scope :=
      ⟨[⟨.list [least, .map [("n", greatest)]], none⟩], .null, true⟩
    let integers := s (.int Int64.minValue) (.int Int64.maxValue)
    let texts := s (.str "-9223372036854775808") (.str "9223372036854775807")
    let c : Comparison :=
      ⟨.path ⟨"0", false, 0, ["0"], none⟩, .lt, .path ⟨"1.n", false, 0, ["1", "n"], none⟩⟩
    integers.Respelled texts ∧ integers.holds c = true ∧ texts.holds c = true := by
  intro s integers texts c
  have hleast : (Value.int Int64.minValue).Respelled (.str "-9223372036854775808") := by
    have htext : Number.intText Int64.minValue.toInt = "-9223372036854775808" := by decide +kernel
    exact htext ▸ .int Int64.minValue
  have hgreatest : (Value.int Int64.maxValue).Respelled (.str "9223372036854775807") := by
    have htext : Number.intText Int64.maxValue.toInt = "9223372036854775807" := by decide +kernel
    exact htext ▸ .int Int64.maxValue
  have hmap : (Value.map [("n", .int Int64.maxValue)]).Respelled
      (.map [("n", .str "9223372036854775807")]) := .map (.cons ⟨rfl, hgreatest⟩ .nil)
  have hframe : integers.Respelled texts :=
    ⟨.cons ⟨.list (.cons hleast (.cons hmap .nil)), .none⟩ .nil, .refl .null, rfl⟩
  have hintegers : integers.holds c = true := by decide +kernel
  exact ⟨hframe, hintegers, (holds_of_respelled hframe c).trans hintegers⟩

end Scope

end Stencil
