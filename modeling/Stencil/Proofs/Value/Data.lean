import Mathlib.Logic.Relation
import Stencil.Proofs.Value.MapCalls

/-!
# The values of data

Whether data become a value is decided by their parts one by one: there is a value unless an integer
of 128 bits, or a map with a key that is neither a text nor a scalar, is inside, be it in another
key. Wrappers do not show. Sequences of all kinds become lists, and records and maps of all kinds
become tables that list each name once.

## Main definitions

* `Datum.children`, `Datum.Contains` - the parts of a datum, and all data inside of it
* `Datum.handed` - the steps that hand over the entries of a map one by one
* `Datum.IsRegular` - data whose maps hand over keys and values in turns
* `Datum.IsRejected` - data that have no value whatever is inside of them
* `Datum.unwrapped` - a datum without its wrappers
* `Datum.LaidOut` - what sequences, records and maps become

Main statements: `Datum.exists_yields_iff`, `Datum.toValue_unwrapped`, `Datum.laidOut_of_yields`,
`Datum.toValue_regular`.
-/

namespace Stencil

namespace Datum

/-! ### The parts of data -/

/-- The data that a datum is made of. -/
def children : Datum → List Datum
  | .present datum => [datum]
  | .newtypeStruct datum => [datum]
  | .newtypeVariant _ datum => [datum]
  | .sequence _ items => items
  | .record _ fields => fields.map Prod.snd
  | .map steps => steps.map Prod.snd
  | _ => []

/-- All data inside of a datum, itself included. -/
def Contains : Datum → Datum → Prop :=
  Relation.ReflTransGen fun datum child => child ∈ datum.children

/-- The steps that hand over a map: each key, and behind it its value. -/
def handed (pairs : List (Datum × Datum)) : List (MapRole × Datum) :=
  pairs.flatMap fun (key, value) => [(.key, key), (.value, value)]

/-- In all maps inside of a datum, keys and values come in turns. -/
def IsRegular (datum : Datum) : Prop :=
  ∀ steps, datum.Contains (.map steps) → ∃ pairs, steps = handed pairs

/-- What has no value whatever is inside of it: integers of 128 bits, and maps with a key whose own
value is neither a text nor a scalar. -/
def IsRejected : Datum → Prop
  | .wide _ => True
  | .map steps => ∃ datum key, (.key, datum) ∈ steps ∧ datum.Yields key ∧ ¬ key.isKey
  | _ => False

variable {datum child part : Datum} {value : Value}

theorem contains_iff :
    datum.Contains part ↔ datum = part ∨ ∃ child ∈ datum.children, child.Contains part :=
  Relation.ReflTransGen.cases_head_iff

theorem sizeOf_lt_of_mem_map_snd {α : Type} [SizeOf α] {steps : List (α × Datum)}
    (h : child ∈ steps.map Prod.snd) : sizeOf child < sizeOf steps := by
  obtain ⟨⟨role, datum⟩, hstep, rfl⟩ := List.mem_map.1 h
  have hlt := List.sizeOf_lt_of_mem hstep
  simp only [Prod.mk.sizeOf_spec] at hlt ⊢
  omega

theorem sizeOf_lt_of_mem_children (h : child ∈ datum.children) : sizeOf child < sizeOf datum := by
  cases datum with
  | present datum =>
    obtain rfl := List.mem_singleton.1 h
    simp only [present.sizeOf_spec]
    omega
  | newtypeStruct datum =>
    obtain rfl := List.mem_singleton.1 h
    simp only [newtypeStruct.sizeOf_spec]
    omega
  | newtypeVariant name datum =>
    obtain rfl := List.mem_singleton.1 h
    simp only [newtypeVariant.sizeOf_spec]
    omega
  | sequence kind items =>
    have hlt := List.sizeOf_lt_of_mem (show child ∈ items from h)
    simp only [sequence.sizeOf_spec]
    omega
  | record kind fields =>
    have hlt := sizeOf_lt_of_mem_map_snd h
    simp only [record.sizeOf_spec]
    omega
  | map steps =>
    have hlt := sizeOf_lt_of_mem_map_snd h
    simp only [map.sizeOf_spec]
    omega
  | _ => cases h

/-- What holds of a datum whenever it holds of its parts holds of all data. -/
theorem induct {P : Datum → Prop} (h : ∀ datum, (∀ child ∈ datum.children, P child) → P datum)
    (datum : Datum) : P datum :=
  h datum fun child hchild =>
    have := sizeOf_lt_of_mem_children hchild
    induct h child
termination_by sizeOf datum

theorem isRegular_iff :
    datum.IsRegular ↔
      (∀ steps, datum = .map steps → ∃ pairs, steps = handed pairs) ∧
        ∀ child ∈ datum.children, child.IsRegular := by
  constructor
  · intro h
    refine ⟨?_, fun child hchild steps hsteps => h steps (.head hchild hsteps)⟩
    rintro steps rfl
    exact h steps .refl
  · rintro ⟨hself, hchildren⟩ steps hsteps
    rcases contains_iff.1 hsteps with heq | ⟨child, hchild, hinside⟩
    · exact hself steps heq
    · exact hchildren child hchild steps hinside

theorem IsRegular.of_mem_children (h : datum.IsRegular) (hchild : child ∈ datum.children) :
    child.IsRegular :=
  (isRegular_iff.1 h).2 child hchild

theorem IsRegular.of_contains (h : datum.IsRegular) (hpart : datum.Contains part) :
    part.IsRegular :=
  fun steps hsteps => h steps (hpart.trans hsteps)

/-! ### What sequences, records and maps become -/

/-- A pair of data brings an entry of a map: its name is the text of the key. -/
def BringsEntry (pair : Datum × Datum) (member : String × Value) : Prop :=
  (∃ key, pair.1.Yields key ∧ key.isKey ∧ key.text = member.1) ∧ pair.2.Yields member.2

/-- What sequences, records and maps become, given the values of the data that they are made of. -/
def LaidOut : Datum → Value → Prop
  | .sequence _ items, value =>
    ∃ values, List.Forall₂ Yields items values ∧ value = .list values
  | .bytes values, value => value = .list (values.map fun byte => .int (Int64.ofNat byte.toNat))
  | .record _ fields, value =>
    ∃ members entries : Entries Value, List.Forall₂ Brings fields members ∧
      members.Collects entries ∧ value = .map entries
  | .map steps, value =>
    ∃ (pairs : List (Datum × Datum)) (members entries : Entries Value), steps = handed pairs ∧
      List.Forall₂ BringsEntry pairs members ∧ members.Collects entries ∧ value = .map entries
  | _, _ => True

theorem keyText_eq_ok {key : Value} {name : String} :
    keyText key = .ok name ↔ key.isKey ∧ key.text = name := by
  rw [keyText_eq]
  split
  · next hkey => simp [hkey]
  · next hkey => simp [hkey]

theorem itemValues_eq_ok {items : List Datum} {values : List Value} :
    itemValues items = .ok values ↔ List.Forall₂ Yields items values := by
  induction items generalizing values with
  | nil => simp [itemValues, eq_comm]
  | cons item items ih =>
    simp only [itemValues, bind_eq_ok, List.forall₂_cons_left_iff, ih]
    constructor
    · rintro ⟨value, hvalue, values, hvalues, hresult⟩
      exact ⟨value, values, hvalue, hvalues, (Except.ok.inj hresult).symm⟩
    · rintro ⟨value, values, hvalue, hvalues, rfl⟩
      exact ⟨value, hvalue, values, hvalues, rfl⟩

theorem fieldValues_eq_ok {fields : List (String × Datum)} {entries result : Entries Value} :
    fieldValues entries fields = .ok result ↔
      ∃ members, List.Forall₂ Brings fields members ∧ result = entries.insertAll members := by
  induction fields generalizing entries with
  | nil => simp [fieldValues, Entries.insertAll, eq_comm]
  | cons field fields ih =>
    obtain ⟨name, datum⟩ := field
    simp only [fieldValues, bind_eq_ok, ih]
    constructor
    · rintro ⟨value, hvalue, members, hmembers, rfl⟩
      exact ⟨(name, value) :: members, .cons ⟨rfl, hvalue⟩ hmembers, rfl⟩
    · rintro ⟨members, hmembers, rfl⟩
      cases hmembers with
      | @cons _ member _ members hfirst hlater =>
        obtain ⟨name', value⟩ := member
        obtain ⟨rfl, hvalue⟩ : name = name' ∧ datum.Yields value := hfirst
        exact ⟨value, hvalue, members, hlater, rfl⟩

theorem mapValues_handed_eq_ok {pairs : List (Datum × Datum)} {entries result : Entries Value} :
    mapValues entries none (handed pairs) = .ok result ↔
      ∃ members, List.Forall₂ BringsEntry pairs members ∧ result = entries.insertAll members := by
  induction pairs generalizing entries with
  | nil => simp [handed, mapValues, Entries.insertAll, eq_comm]
  | cons pair pairs ih =>
    obtain ⟨key, datum⟩ := pair
    have hsteps : handed ((key, datum) :: pairs) =
        (.key, key) :: (.value, datum) :: handed pairs := rfl
    simp only [hsteps, mapValues, bind_eq_ok, keyText_eq_ok, ih]
    constructor
    · rintro ⟨k, hk, name, hname, value, hvalue, members, hmembers, rfl⟩
      exact ⟨(name, value) :: members, .cons ⟨⟨k, hk, hname⟩, hvalue⟩ hmembers, rfl⟩
    · rintro ⟨members, hmembers, rfl⟩
      cases hmembers with
      | @cons _ member _ members hfirst hlater =>
        obtain ⟨⟨k, hk, hname⟩, hvalue⟩ := hfirst
        exact ⟨k, hk, member.1, hname, member.2, hvalue, members, hlater, rfl⟩

/-- What a datum becomes is made of what its parts become. -/
theorem laidOut_of_yields (h : datum.IsRegular) (hvalue : datum.Yields value) :
    datum.LaidOut value := by
  cases datum with
  | bytes values =>
    have hbyte (byte : UInt8) : Value.ofNat byte.toNat = .int (Int64.ofNat byte.toNat) :=
      if_pos (Nat.lt_trans byte.toNat_lt (by decide))
    have hresult : Value.list (values.map fun byte => Value.ofNat byte.toNat) = value :=
      Except.ok.inj hvalue
    simp only [hbyte] at hresult
    exact hresult.symm
  | sequence kind items =>
    rw [Yields, toValue, map_eq_ok] at hvalue
    obtain ⟨values, hvalues, rfl⟩ := hvalue
    exact ⟨values, itemValues_eq_ok.1 hvalues, rfl⟩
  | record kind fields =>
    rw [Yields, toValue, map_eq_ok] at hvalue
    obtain ⟨entries, hentries, rfl⟩ := hvalue
    obtain ⟨members, hmembers, rfl⟩ := fieldValues_eq_ok.1 hentries
    exact ⟨members, _, hmembers, Entries.collects_ofList members, rfl⟩
  | map steps =>
    obtain ⟨pairs, rfl⟩ := h steps .refl
    rw [Yields, toValue, map_eq_ok] at hvalue
    obtain ⟨entries, hentries, rfl⟩ := hvalue
    obtain ⟨members, hmembers, rfl⟩ := mapValues_handed_eq_ok.1 hentries
    exact ⟨pairs, members, _, rfl, hmembers, Entries.collects_ofList members, rfl⟩
  | _ => trivial

/-! ### Data without a value -/

theorem exists_forall₂_iff {α β : Type} {R : α → β → Prop} {items : List α} :
    (∃ results, List.Forall₂ R items results) ↔ ∀ item ∈ items, ∃ result, R item result := by
  induction items with
  | nil => exact iff_of_true ⟨[], .nil⟩ nofun
  | cons item items ih =>
    rw [List.forall_mem_cons, ← ih]
    constructor
    · rintro ⟨_, _ | ⟨hfirst, hlater⟩⟩
      exact ⟨⟨_, hfirst⟩, _, hlater⟩
    · rintro ⟨⟨result, hfirst⟩, results, hlater⟩
      exact ⟨result :: results, .cons hfirst hlater⟩

theorem exists_brings_iff {α : Type} {step : α × Datum} :
    (∃ call, Brings step call) ↔ ∃ value, step.2.Yields value :=
  ⟨fun ⟨call, hcall⟩ => ⟨call.2, hcall.2⟩, fun ⟨value, hvalue⟩ => ⟨(step.1, value), rfl, hvalue⟩⟩

theorem mem_handed {pairs : List (Datum × Datum)} {role : MapRole} :
    (role, datum) ∈ handed pairs ↔
      ∃ pair ∈ pairs, (role = .key ∧ datum = pair.1) ∨ (role = .value ∧ datum = pair.2) := by
  simp [handed, List.mem_flatMap]

/-- A pair brings an entry if both of its data become values and the key can be one. -/
theorem exists_bringsEntry_iff {pairs : List (Datum × Datum)} :
    (∀ pair ∈ pairs, ∃ member, BringsEntry pair member) ↔
      ¬ IsRejected (.map (handed pairs)) ∧
        ∀ child ∈ (Datum.map (handed pairs)).children, ∃ value, child.Yields value := by
  constructor
  · intro hpairs
    refine ⟨?_, fun child hchild => ?_⟩
    · rintro ⟨datum, key, hstep, hdatum, hkey⟩
      obtain ⟨pair, hpair, ⟨-, rfl⟩ | ⟨hrole, -⟩⟩ := mem_handed.1 hstep
      · obtain ⟨member, ⟨key', hyields, hiskey, -⟩, -⟩ := hpairs pair hpair
        obtain rfl := Except.ok.inj (hdatum.symm.trans hyields)
        exact hkey hiskey
      · cases hrole
    · obtain ⟨⟨role, datum⟩, hstep, rfl⟩ := List.mem_map.1 hchild
      obtain ⟨pair, hpair, hpart⟩ := mem_handed.1 hstep
      obtain ⟨member, ⟨key, hyields, -⟩, hvalue⟩ := hpairs pair hpair
      rcases hpart with ⟨-, rfl⟩ | ⟨-, rfl⟩
      · exact ⟨key, hyields⟩
      · exact ⟨member.2, hvalue⟩
  · rintro ⟨haccepted, hchildren⟩ pair hpair
    have hkeystep : (MapRole.key, pair.1) ∈ handed pairs :=
      mem_handed.2 ⟨pair, hpair, .inl ⟨rfl, rfl⟩⟩
    have hvaluestep : (MapRole.value, pair.2) ∈ handed pairs :=
      mem_handed.2 ⟨pair, hpair, .inr ⟨rfl, rfl⟩⟩
    obtain ⟨key, hkey⟩ := hchildren pair.1 (List.mem_map_of_mem hkeystep)
    obtain ⟨value, hvalue⟩ := hchildren pair.2 (List.mem_map_of_mem hvaluestep)
    have hiskey : key.isKey := not_not.1 fun hnot => haccepted ⟨_, _, hkeystep, hkey, hnot⟩
    exact ⟨(key.text, value), ⟨key, hkey, hiskey, rfl⟩, hvalue⟩

/-- A datum becomes a value if it is not rejected itself and its parts become values. -/
theorem exists_yields_step (h : datum.IsRegular) :
    (∃ value, datum.Yields value) ↔
      ¬ datum.IsRejected ∧ ∀ child ∈ datum.children, ∃ value, child.Yields value := by
  have haccepted (hnot : ¬ datum.IsRejected) (hiff : (∃ value, datum.Yields value) ↔
      ∀ child ∈ datum.children, ∃ value, child.Yields value) : _ ↔ _ ∧ _ :=
    hiff.trans (and_iff_right hnot).symm
  have hmap {α : Type} {result : Except Error α} {f : α → Value} :
      (∃ value, result.map f = .ok value) ↔ ∃ part, result = .ok part := by
    cases result <;> simp [Except.map]
  have hbuilt {α β : Type} {P : α → Prop} {build : α → β} :
      (∃ result part, P part ∧ result = build part) ↔ ∃ part, P part := by
    rw [exists_comm]
    simp
  have hinner (inner : Datum) : (∃ value, inner.Yields value) ↔
      ∀ child ∈ [inner], ∃ value, child.Yields value := by
    rw [List.forall_mem_singleton]
  cases datum with
  | wide type =>
    refine iff_of_false ?_ fun hparts => hparts.1 trivial
    rintro ⟨value, hvalue⟩
    cases hvalue
  | present inner => exact haccepted id (hinner inner)
  | newtypeStruct inner => exact haccepted id (hinner inner)
  | newtypeVariant name inner => exact haccepted id (hinner inner)
  | sequence kind items =>
    have hitems : (∃ values, List.Forall₂ Yields items values) ↔
        ∀ child ∈ (sequence kind items).children, ∃ value, child.Yields value :=
      exists_forall₂_iff
    refine haccepted id (Iff.trans ?_ hitems)
    simp only [Yields, toValue, hmap, itemValues_eq_ok]
  | record kind fields =>
    have hfields : (∃ members, List.Forall₂ Brings fields members) ↔
        ∀ child ∈ (record kind fields).children, ∃ value, child.Yields value := by
      rw [exists_forall₂_iff, children, List.forall_mem_map]
      exact forall₂_congr fun _ _ => exists_brings_iff
    refine haccepted id (Iff.trans ?_ hfields)
    simp only [Yields, toValue, hmap, fieldValues_eq_ok, hbuilt]
  | map steps =>
    obtain ⟨pairs, rfl⟩ := h steps .refl
    rw [← exists_bringsEntry_iff, ← exists_forall₂_iff]
    simp only [Yields, toValue, hmap, mapValues_handed_eq_ok, hbuilt]
  | _ =>
    refine haccepted id (iff_of_true ⟨_, rfl⟩ ?_)
    exact fun _ hchild => absurd hchild List.not_mem_nil

/-- Data become a value exactly if nothing inside of them is rejected. -/
theorem exists_yields_iff (h : datum.IsRegular) :
    (∃ value, datum.Yields value) ↔ ∀ part, datum.Contains part → ¬ part.IsRejected := by
  induction datum using induct with
  | h datum ih =>
    rw [exists_yields_step h]
    constructor
    · rintro ⟨haccepted, hchildren⟩ part hpart
      rcases contains_iff.1 hpart with rfl | ⟨child, hchild, hinside⟩
      · exact haccepted
      · exact (ih child hchild (h.of_mem_children hchild)).1 (hchildren child hchild) part hinside
    · intro hall
      refine ⟨hall datum .refl, fun child hchild => ?_⟩
      exact (ih child hchild (h.of_mem_children hchild)).2 fun part hpart =>
        hall part (.head hchild hpart)

/-! ### Data without wrappers -/

/-- Whether a datum does nothing but wrap another one. -/
def isWrapper : Datum → Bool
  | .present _ => true
  | .newtypeStruct _ => true
  | .newtypeVariant _ _ => true
  | _ => false

mutual

/-- A datum without all wrappers inside of it, itself included. -/
def unwrapped : Datum → Datum
  | .present datum => unwrapped datum
  | .newtypeStruct datum => unwrapped datum
  | .newtypeVariant _ datum => unwrapped datum
  | .sequence kind items => .sequence kind (unwrappedItems items)
  | .record kind fields => .record kind (unwrappedFields fields)
  | .map steps => .map (unwrappedSteps steps)
  | datum => datum

/-- The items of a sequence without wrappers. -/
def unwrappedItems : List Datum → List Datum
  | [] => []
  | item :: items => unwrapped item :: unwrappedItems items

/-- The fields of a record without wrappers. -/
def unwrappedFields : List (String × Datum) → List (String × Datum)
  | [] => []
  | (name, field) :: fields => (name, unwrapped field) :: unwrappedFields fields

/-- The steps that hand over a map without wrappers, in keys and in values. -/
def unwrappedSteps : List (MapRole × Datum) → List (MapRole × Datum)
  | [] => []
  | (role, datum) :: steps => (role, unwrapped datum) :: unwrappedSteps steps

end

mutual

/-- Wrappers do not show. -/
theorem toValue_unwrapped : ∀ datum : Datum, datum.unwrapped.toValue = datum.toValue
  | .present datum => toValue_unwrapped datum
  | .newtypeStruct datum => toValue_unwrapped datum
  | .newtypeVariant _ datum => toValue_unwrapped datum
  | .sequence _ items => congrArg (Except.map Value.list) (itemValues_unwrapped items)
  | .record _ fields => congrArg (Except.map Value.map) (fieldValues_unwrapped fields [])
  | .map steps => congrArg (Except.map Value.map) (mapValues_unwrapped steps [] none)
  | .bool _ => rfl
  | .int _ => rfl
  | .natural _ => rfl
  | .wide _ => rfl
  | .float _ => rfl
  | .char _ => rfl
  | .str _ => rfl
  | .bytes _ => rfl
  | .absent => rfl
  | .unit => rfl
  | .unitStruct => rfl
  | .unitVariant _ => rfl

theorem itemValues_unwrapped : ∀ items, itemValues (unwrappedItems items) = itemValues items
  | [] => rfl
  | item :: items => by
    rw [unwrappedItems, itemValues, itemValues, toValue_unwrapped item, itemValues_unwrapped items]

theorem fieldValues_unwrapped : ∀ fields entries,
    fieldValues entries (unwrappedFields fields) = fieldValues entries fields
  | [], _ => rfl
  | (name, field) :: fields, entries => by
    simp only [unwrappedFields, fieldValues, toValue_unwrapped field, fieldValues_unwrapped fields]

theorem mapValues_unwrapped : ∀ steps entries pending,
    mapValues entries pending (unwrappedSteps steps) = mapValues entries pending steps
  | [], _, _ => rfl
  | (.key, datum) :: steps, entries, pending => by
    simp only [unwrappedSteps, mapValues, toValue_unwrapped datum, mapValues_unwrapped steps]
  | (.value, datum) :: steps, entries, pending => by
    simp only [unwrappedSteps, mapValues, toValue_unwrapped datum, mapValues_unwrapped steps]

end

theorem unwrappedItems_eq (items : List Datum) : unwrappedItems items = items.map unwrapped := by
  induction items with
  | nil => rfl
  | cons item items ih => rw [unwrappedItems, ih, List.map_cons]

theorem map_snd_unwrappedFields (fields : List (String × Datum)) :
    (unwrappedFields fields).map Prod.snd = (fields.map Prod.snd).map unwrapped := by
  induction fields with
  | nil => rfl
  | cons field fields ih => rw [unwrappedFields, List.map_cons, ih, List.map_cons, List.map_cons]

theorem map_snd_unwrappedSteps (steps : List (MapRole × Datum)) :
    (unwrappedSteps steps).map Prod.snd = (steps.map Prod.snd).map unwrapped := by
  induction steps with
  | nil => rfl
  | cons step steps ih => rw [unwrappedSteps, List.map_cons, ih, List.map_cons, List.map_cons]

/-- A wrapper is left out, and any other datum is kept, with its parts unwrapped. -/
theorem unwrapped_cases (datum : Datum) :
    (∃ inner ∈ datum.children, datum.unwrapped = inner.unwrapped) ∨
      (datum.unwrapped.isWrapper = false ∧
        datum.unwrapped.children = datum.children.map unwrapped) := by
  cases datum with
  | present inner => exact .inl ⟨inner, .head _, rfl⟩
  | newtypeStruct inner => exact .inl ⟨inner, .head _, rfl⟩
  | newtypeVariant name inner => exact .inl ⟨inner, .head _, rfl⟩
  | sequence kind items => exact .inr ⟨rfl, unwrappedItems_eq items⟩
  | record kind fields => exact .inr ⟨rfl, map_snd_unwrappedFields fields⟩
  | map steps => exact .inr ⟨rfl, map_snd_unwrappedSteps steps⟩
  | _ => exact .inr ⟨rfl, rfl⟩

/-- No wrapper is left, at any depth. -/
theorem isWrapper_of_contains_unwrapped (h : datum.unwrapped.Contains part) :
    part.isWrapper = false := by
  induction datum using induct with
  | h datum ih =>
    rcases unwrapped_cases datum with ⟨inner, hinner, heq⟩ | ⟨hkept, hchildren⟩
    · exact ih inner hinner (heq ▸ h)
    · rcases contains_iff.1 h with rfl | ⟨child, hchild, hinside⟩
      · exact hkept
      · rw [hchildren] at hchild
        obtain ⟨inner, hinner, rfl⟩ := List.mem_map.1 hchild
        exact ih inner hinner hinside

/-! ### All data -/

/-- **The values of data.** Where keys and values of maps come in turns: there is no value exactly
if an integer of 128 bits, or a map with a key that is neither a text nor a scalar, is somewhere
inside, also within keys. Without all wrappers a datum has the same value, or the same error. And if
there is a value, each sequence inside has become the list of the values of its items, and each
record and each map a table that lists each name once, in the order of the first occurrences, with
the value of its last occurrence. -/
theorem toValue_of_isRegular (h : datum.IsRegular) :
    ((∃ e, datum.toValue = .error e) ↔ ∃ part, datum.Contains part ∧ part.IsRejected) ∧
    ((∀ part, datum.unwrapped.Contains part → part.isWrapper = false) ∧
      datum.unwrapped.toValue = datum.toValue) ∧
    ∀ value, datum.toValue = .ok value → ∀ part, datum.Contains part →
      ∃ value, part.toValue = .ok value ∧ part.LaidOut value := by
  have hvalue : (∃ value, datum.toValue = .ok value) ↔
      ∀ part, datum.Contains part → ¬ part.IsRejected := exists_yields_iff h
  refine ⟨?_, ⟨fun _ => isWrapper_of_contains_unwrapped, toValue_unwrapped datum⟩,
    fun value hok part hpart => ?_⟩
  · have hfails : (∃ e, datum.toValue = .error e) ↔ ¬ ∃ value, datum.toValue = .ok value := by
      cases datum.toValue <;> simp
    rw [hfails, hvalue]
    simp only [not_forall, not_not, exists_prop]
  · have hregular := h.of_contains hpart
    obtain ⟨result, hresult⟩ := (exists_yields_iff hregular).2 fun inner hinner =>
      hvalue.1 ⟨value, hok⟩ inner (hpart.trans hinner)
    exact ⟨result, hresult, laidOut_of_yields hregular hresult⟩

/-- Three keys with one text, the last one for a record with a field given twice; and a key that is
a map within a sequence. -/
theorem toValue_of_isRegular_collapsed :
    let album : Datum :=
      .record (.structVariant "Album") [("year", .unit), ("tag", .char 'c'),
        ("year", .newtypeStruct (.int (-1)))]
    let datum : Datum :=
      .map (handed [(.natural 1, .bytes [7]), (.present (.str "1"), .bool true), (.char '1', album)])
    let result : Value := .map [("1", .map [("year", .int (-1)), ("tag", .str "c")])]
    let broken : Datum := .sequence .tuple [.map (handed [(.present .unit, .unit)])]
    (datum.IsRegular ∧ datum.toValue = .ok result ∧ datum.unwrapped.toValue = .ok result ∧
      ∃ value, album.toValue = .ok value ∧ album.LaidOut value) ∧
    broken.IsRegular ∧ ∃ e, broken.toValue = .error e := by
  intro album datum result broken
  have hleaf {leaf : Datum} (hchildren : leaf.children = []) (hmap : ∀ steps, leaf ≠ .map steps) :
      leaf.IsRegular :=
    isRegular_iff.2 ⟨fun steps h => absurd h (hmap steps), hchildren ▸ nofun⟩
  have hwrapped {outer inner : Datum} (hchildren : outer.children = [inner])
      (hmap : ∀ steps, outer ≠ .map steps) (h : inner.IsRegular) : outer.IsRegular :=
    isRegular_iff.2 ⟨fun steps h => absurd h (hmap steps),
      hchildren ▸ List.forall_mem_singleton.2 h⟩
  have halbum : album.IsRegular := by
    refine isRegular_iff.2 ⟨nofun, ?_⟩
    simp only [album, children, List.map_cons, List.map_nil, List.forall_mem_cons]
    exact ⟨hleaf rfl nofun, hleaf rfl nofun, hwrapped rfl nofun (hleaf rfl nofun), nofun⟩
  have hregular : datum.IsRegular := by
    refine isRegular_iff.2 ⟨fun steps h => ⟨_, (map.inj h).symm⟩, ?_⟩
    simp only [datum, children, handed, List.flatMap_cons, List.flatMap_nil, List.cons_append,
      List.nil_append, List.map_cons, List.map_nil, List.forall_mem_cons]
    exact ⟨hleaf rfl nofun, hleaf rfl nofun, hwrapped rfl nofun (hleaf rfl nofun),
      hleaf rfl nofun, hleaf rfl nofun, halbum, nofun⟩
  have hbroken : broken.IsRegular := by
    refine hwrapped rfl nofun (isRegular_iff.2 ⟨fun steps h => ⟨_, (map.inj h).symm⟩, ?_⟩)
    simp only [children, handed, List.flatMap_cons, List.flatMap_nil, List.cons_append,
      List.nil_append, List.map_cons, List.map_nil, List.forall_mem_cons]
    exact ⟨hwrapped rfl nofun (hleaf rfl nofun), hleaf rfl nofun, nofun⟩
  have hone : (natural 1).Yields (.int 1) := rfl
  have htext : (Value.int 1).text = "1" := by decide +kernel
  have hresult : datum.toValue = .ok result := by
    show (mapValues [] none ((.key, .natural 1) :: _)).map Value.map = _
    rw [mapValues_key hone rfl, htext]
    rfl
  obtain ⟨-, ⟨-, hunwrapped⟩, hparts⟩ := toValue_of_isRegular hregular
  refine ⟨⟨hregular, hresult, hunwrapped.trans hresult, hparts result hresult album ?_⟩, hbroken,
    (toValue_of_isRegular hbroken).1.2 ⟨_, .head (.head _) .refl, _, _, .head _, rfl, nofun⟩⟩
  refine .head ?_ .refl
  simp [datum, children, handed]

end Datum

end Stencil
