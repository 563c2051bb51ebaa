import Mathlib.Data.List.Forall2
import Mathlib.Data.List.Induction
import Stencil.Value.Datum

/-!
# Maps that are handed over call by call

A map is handed over by calls for its keys and for its values, and nothing forces these to take
turns. A key waits until a value takes it or another key takes its place. The entries are those of
the calls for values, under the keys that these have found.

## Main definitions

* `Entries.Collects` - tables that list the names of a row of members once, with their last values
* `Entries.insertAll` - enters members one after another
* `Value.isKey` - the values that can be keys
* `Datum.Brings` - what is handed over, and what it becomes
* `Datum.waitingKeys`, `Datum.latestName?` - the keys that earlier calls leave for a value
* `Datum.IsRefused` - the calls that are refused behind earlier ones
* `Datum.keyedValues` - the calls for values with their keys

Main statements: `Entries.collects_ofList`, `Datum.mapValues_of_calls`,
`Datum.toValue_map_calls`.
-/

namespace Stencil

/-! ### Tables from members -/

namespace Entries

variable {β : Type} {members entries : Entries β}

/-- A table that lists each name of the members exactly once, in the order of the first occurrences,
and has for each name the value of its last occurrence. -/
structure Collects (members entries : Entries β) : Prop where
  nodup : entries.names.Nodup
  names : entries.names = members.names.eraseDups
  latest : ∀ name, entries.find? name = find? name members.reverse

/-- Enters members one after another behind entries that are there. -/
def insertAll (entries members : Entries β) : Entries β :=
  members.foldl (fun entries member => entries.insert member.1 member.2) entries

theorem ofList_concat (members : Entries β) (name : String) (value : β) :
    ofList (members ++ [(name, value)]) = (ofList members).insert name value := by
  rw [ofList, List.foldl_concat]
  rfl

/-- Members that are entered one after another end up in such a table. -/
theorem collects_ofList (members : Entries β) : Collects members (ofList members) := by
  induction members using List.reverseRecOn with
  | nil => exact ⟨.nil, rfl, fun _ => rfl⟩
  | append_singleton members member ih =>
    obtain ⟨name, value⟩ := member
    rw [ofList_concat]
    refine ⟨nodup_names_insert ih.nodup name value, ?_, fun other => ?_⟩
    · have hnames : names (members ++ [(name, value)]) = names members ++ [name] :=
        List.map_append
      rw [hnames, List.eraseDups_append, names_insert, ih.names]
      by_cases hknown : name ∈ names members
      · rw [if_pos (List.mem_eraseDups.2 hknown)]
        simp [List.removeAll, hknown]
      · rw [if_neg (mt List.mem_eraseDups.1 hknown)]
        simp [List.removeAll, hknown, List.eraseDups_cons]
    · rw [List.reverse_concat, find?]
      split
      · next hsame => rw [← hsame, find?_insert_self]
      · next hother => rw [find?_insert_of_ne (Ne.symm hother), ih.latest]

end Entries

/-- Whether a value can be a key: texts, truth values, and numbers that are integers or doubles. -/
def Value.isKey : Value → Bool
  | .str _ => true
  | .bool _ => true
  | .int _ => true
  | .float _ => true
  | _ => false

namespace Datum

/-- A datum becomes a value. -/
def Yields (datum : Datum) (value : Value) : Prop :=
  datum.toValue = .ok value

/-- A datum that is handed over with a name or a role becomes the value that stands with it. -/
def Brings {α : Type} (step : α × Datum) (call : α × Value) : Prop :=
  step.1 = call.1 ∧ step.2.Yields call.2

/-- A key goes by its text. -/
theorem keyText_eq (value : Value) :
    keyText value = if value.isKey then .ok value.text else .error (.data .compositeKey) := by
  cases value <;> rfl

/-! ### What earlier calls leave -/

/-- The calls for keys behind the last call for a value, or all of them if there is none; the latest
one first. -/
def waitingKeys (earlier : List (MapRole × Value)) : List (MapRole × Value) :=
  earlier.reverse.takeWhile fun call => call.1 = .key

/-- The text of the key that waits for a value. -/
def pending? (earlier : List (MapRole × Value)) : Option String :=
  (waitingKeys earlier).head?.map fun call => call.2.text

/-- The text of the latest key. -/
def latestName? (earlier : List (MapRole × Value)) : Option String :=
  (earlier.reverse.find? fun call => call.1 = .key).map fun call => call.2.text

/-- A call that is refused behind earlier ones: it brings a key that is neither a text nor a scalar,
or a value although there has been no key since the previous value. -/
def IsRefused (earlier : List (MapRole × Value)) : MapRole × Value → Prop
  | (.key, key) => ¬ key.isKey
  | (.value, _) => waitingKeys earlier = []

/-- The calls for values, each with the text of the latest key before it. -/
def keyedValues (earlier : List (MapRole × Value)) :
    List (MapRole × Value) → List (Option String × Value)
  | [] => []
  | (.key, key) :: calls => keyedValues (earlier ++ [(.key, key)]) calls
  | (.value, value) :: calls =>
    (latestName? earlier, value) :: keyedValues (earlier ++ [(.value, value)]) calls

variable {earlier calls : List (MapRole × Value)} {call : MapRole × Value}
  {steps front behind : List (MapRole × Datum)} {datum : Datum} {key value : Value}
  {entries : Entries Value} {pending : Option String}

theorem waitingKeys_key (earlier : List (MapRole × Value)) (key : Value) :
    waitingKeys (earlier ++ [(.key, key)]) = (.key, key) :: waitingKeys earlier := by
  simp [waitingKeys]

theorem waitingKeys_value (earlier : List (MapRole × Value)) (value : Value) :
    waitingKeys (earlier ++ [(.value, value)]) = [] := by
  simp [waitingKeys]

theorem pending?_key (earlier : List (MapRole × Value)) (key : Value) :
    pending? (earlier ++ [(.key, key)]) = some key.text := by
  rw [pending?, waitingKeys_key]
  rfl

theorem pending?_value (earlier : List (MapRole × Value)) (value : Value) :
    pending? (earlier ++ [(.value, value)]) = none := by
  rw [pending?, waitingKeys_value]
  rfl

theorem pending?_eq_none_iff : pending? earlier = none ↔ waitingKeys earlier = [] := by
  rw [pending?, Option.map_eq_none_iff, List.head?_eq_none_iff]

/-- The key that waits is the latest one. -/
theorem latestName?_of_pending? {name : String} (h : pending? earlier = some name) :
    latestName? earlier = some name := by
  obtain ⟨call, hcall, htext⟩ := Option.map_eq_some_iff.1 h
  rw [waitingKeys, List.head?_takeWhile] at hcall
  obtain ⟨hlatest, hkey⟩ := Option.filter_eq_some_iff.1 hcall
  obtain ⟨later, hlater⟩ := List.head?_eq_some_iff.1 hlatest
  have hfind : earlier.reverse.find? (fun call => call.1 = .key) = some call := by
    rw [hlater]
    exact List.find?_cons_of_pos hkey
  rw [latestName?, hfind, Option.map_some, htext]

/-! ### A call, and what follows it -/

/-- A key is refused, or it takes the place of the key that waits. -/
theorem mapValues_key_cons (hdatum : datum.Yields key) :
    mapValues entries pending ((.key, datum) :: steps) =
      if key.isKey then mapValues entries (some key.text) steps
      else .error (.data .compositeKey) := by
  have hvalue : datum.toValue = .ok key := hdatum
  rw [mapValues, hvalue]
  show (keyText key >>= _) = _
  rw [keyText_eq]
  split
  · rfl
  · rfl

theorem mapValues_key (hdatum : datum.Yields key) (hkey : key.isKey) :
    mapValues entries pending ((.key, datum) :: steps) =
      mapValues entries (some key.text) steps := by
  rw [mapValues_key_cons hdatum, if_pos hkey]

theorem mapValues_value {name : String} (hdatum : datum.Yields value) :
    mapValues entries (some name) ((.value, datum) :: steps) =
      mapValues (entries.insert name value) none steps := by
  have hvalue : datum.toValue = .ok value := hdatum
  simp only [mapValues, hvalue]
  rfl

/-- A call that is refused ends the map with an error. -/
theorem mapValues_of_isRefused {role : MapRole} (hdatum : datum.Yields value)
    (h : IsRefused earlier (role, value)) :
    ∃ e, mapValues entries (pending? earlier) ((role, datum) :: steps) = .error e := by
  cases role with
  | key =>
    refine ⟨.data .compositeKey, ?_⟩
    rw [mapValues_key_cons hdatum, if_neg h]
  | value =>
    have hvalue : datum.toValue = .ok value := hdatum
    refine ⟨.data .missingKey, ?_⟩
    simp only [mapValues, hvalue, pending?_eq_none_iff.2 h]
    rfl

/-! ### All calls -/

/-- One of the calls is refused behind those before it. -/
def AnyRefused (earlier calls : List (MapRole × Value)) : Prop :=
  ∃ front call behind, calls = front ++ call :: behind ∧ IsRefused (earlier ++ front) call

theorem anyRefused_cons :
    AnyRefused earlier (call :: calls) ↔
      IsRefused earlier call ∨ AnyRefused (earlier ++ [call]) calls := by
  constructor
  · rintro ⟨front, other, behind, hcalls, hrefused⟩
    cases front with
    | nil =>
      obtain ⟨rfl, rfl⟩ := List.cons.inj hcalls
      exact .inl (List.append_nil earlier ▸ hrefused)
    | cons first front =>
      obtain ⟨rfl, rfl⟩ := List.cons.inj hcalls
      exact .inr ⟨front, other, behind, rfl, List.append_cons earlier call front ▸ hrefused⟩
  · rintro (hrefused | ⟨front, other, behind, rfl, hrefused⟩)
    · exact ⟨[], call, calls, rfl, (List.append_nil earlier).symm ▸ hrefused⟩
    · exact ⟨call :: front, other, behind, rfl,
        (List.append_cons earlier call front).symm ▸ hrefused⟩

/-- Behind earlier calls, a map goes wrong if a call is refused, and otherwise it gets an entry for
each call for a value, under the latest key before it. -/
theorem mapValues_of_calls (h : List.Forall₂ Brings steps calls)
    (earlier : List (MapRole × Value)) (entries : Entries Value) :
    (AnyRefused earlier calls ∧ ∃ e, mapValues entries (pending? earlier) steps = .error e) ∨
      (¬ AnyRefused earlier calls ∧ ∃ members : Entries Value,
        keyedValues earlier calls = members.map (fun member => (some member.1, member.2)) ∧
        mapValues entries (pending? earlier) steps = .ok (entries.insertAll members)) := by
  induction h generalizing earlier entries with
  | nil => exact .inr ⟨by simp [AnyRefused], [], rfl, rfl⟩
  | @cons step call steps calls hstep _ ih =>
    obtain ⟨role, datum⟩ := step
    obtain ⟨role', value⟩ := call
    obtain ⟨rfl, hdatum⟩ : role = role' ∧ datum.Yields value := hstep
    rw [anyRefused_cons]
    by_cases hrefused : IsRefused earlier (role, value)
    · exact .inl ⟨.inl hrefused, mapValues_of_isRefused hdatum hrefused⟩
    · rw [or_iff_right hrefused]
      cases role with
      | key =>
        have hkey : value.isKey := not_not.1 hrefused
        rw [mapValues_key hdatum hkey, ← pending?_key earlier value]
        exact ih (earlier ++ [(.key, value)]) entries
      | value =>
        obtain ⟨name, hname⟩ := Option.ne_none_iff_exists'.1 (mt pending?_eq_none_iff.1 hrefused)
        rw [hname, mapValues_value hdatum, ← pending?_value earlier value]
        refine (ih (earlier ++ [(.value, value)]) (entries.insert name value)).imp_right ?_
        rintro ⟨haccepted, members, hmembers, hvalues⟩
        refine ⟨haccepted, (name, value) :: members, ?_, hvalues⟩
        rw [keyedValues, latestName?_of_pending? hname, hmembers]
        rfl

/-! ### Keys that no value takes -/

/-- A key that waits is forgotten where another key follows, or nothing. -/
theorem mapValues_pending (hbehind : ∀ next ∈ behind.head?, next.1 = .key)
    (entries : Entries Value) (pending pending' : Option String) :
    mapValues entries pending behind = mapValues entries pending' behind := by
  cases behind with
  | nil => rfl
  | cons next behind =>
    obtain ⟨role, datum⟩ := next
    obtain rfl : role = .key := hbehind _ rfl
    rfl

/-- A key that no value takes may as well not be handed over. -/
theorem mapValues_unused (hdatum : datum.Yields key) (hkey : key.isKey)
    (hbehind : ∀ next ∈ behind.head?, next.1 = .key) (front : List (MapRole × Datum))
    (entries : Entries Value) (pending : Option String) :
    mapValues entries pending (front ++ (.key, datum) :: behind) =
      mapValues entries pending (front ++ behind) := by
  induction front generalizing entries pending with
  | nil =>
    rw [List.nil_append, mapValues_key hdatum hkey]
    exact mapValues_pending hbehind entries _ _
  | cons step front ih =>
    obtain ⟨role, first⟩ := step
    cases role with
    | key => simp only [List.cons_append, mapValues, ih]
    | value =>
      cases pending with
      | none => rfl
      | some name => simp only [List.cons_append, mapValues, ih]

/-- What a step of handing over a map brings, somewhere among the calls. -/
theorem exists_call_of_mem (h : List.Forall₂ Brings steps calls)
    {role : MapRole} (hstep : (role, datum) ∈ steps) :
    ∃ value, (role, value) ∈ calls ∧ datum.Yields value := by
  induction h with
  | nil => cases hstep
  | @cons step call steps calls hfirst _ ih =>
    rcases List.mem_cons.1 hstep with rfl | hlater
    · obtain ⟨role', value⟩ := call
      obtain ⟨rfl, hvalue⟩ : role = role' ∧ datum.Yields value := hfirst
      exact ⟨value, .head _, hvalue⟩
    · obtain ⟨value, hmem, hvalue⟩ := ih hlater
      exact ⟨value, .tail _ hmem, hvalue⟩

/-- **Maps call by call.** Keys and values whose data become values may be handed over in any order.
This goes wrong exactly if a key is neither a text nor a scalar, or if a value comes although there
has been no key since the previous value. Otherwise it gives a map with an entry for each value
under the latest key before it, where every name is listed once, at the place of its first use and
with the last value; and a key that is followed by another key or by nothing leaves no trace. -/
theorem toValue_map_calls (h : List.Forall₂ Brings steps calls) :
    ((∃ e, (Datum.map steps).toValue = .error e) ↔
      ∃ front call behind, calls = front ++ call :: behind ∧ IsRefused front call) ∧
    ∀ result, (Datum.map steps).toValue = .ok result →
      (∃ members entries : Entries Value,
        keyedValues [] calls = members.map (fun member => (some member.1, member.2)) ∧
        members.Collects entries ∧ result = .map entries) ∧
      ∀ front datum behind, steps = front ++ (.key, datum) :: behind →
        (∀ next ∈ behind.head?, next.1 = .key) →
          (Datum.map (front ++ behind)).toValue = .ok result := by
  rcases mapValues_of_calls h [] [] with ⟨hrefused, e, herror⟩ | ⟨haccepted, members, hkeyed, hok⟩
  · have hvalue : (Datum.map steps).toValue = .error e := by
      rw [toValue]
      exact congrArg (Except.map Value.map) herror
    refine ⟨iff_of_true ⟨e, hvalue⟩ hrefused, fun result hresult => ?_⟩
    rw [hvalue] at hresult
    cases hresult
  · have hvalue : (Datum.map steps).toValue = .ok (.map (Entries.ofList members)) := by
      rw [toValue]
      exact congrArg (Except.map Value.map) hok
    refine ⟨iff_of_false ?_ haccepted, fun result hresult => ⟨?_, ?_⟩⟩
    · rintro ⟨e, herror⟩
      rw [hvalue] at herror
      cases herror
    · rw [hvalue] at hresult
      obtain rfl := Except.ok.inj hresult
      exact ⟨members, _, hkeyed, Entries.collects_ofList members, rfl⟩
    · rintro front datum behind rfl hbehind
      obtain ⟨key, hcall, hdatum⟩ :=
        exists_call_of_mem h (List.mem_append_right front (.head behind))
      -- The key is not refused, or there would be no result.
      have hkey : key.isKey := by
        obtain ⟨before, after, hcalls⟩ := List.append_of_mem hcall
        exact not_not.1 fun hkey => haccepted ⟨before, _, after, hcalls, hkey⟩
      rw [← hresult, toValue, toValue, mapValues_unused hdatum hkey hbehind]

/-- One key is replaced before its value comes, one is left over, and two of the others have the
same text; and a second value behind one key is refused. -/
theorem toValue_map_calls_replaced :
    let unused : MapRole × Datum := (.key, .str "c")
    let steps : List (MapRole × Datum) :=
      [(.key, .bool true), (.value, .str "x"), (.key, .str "a"), (.value, .unit),
        (.key, .present (.str "true")), (.value, .char 'y'), (.key, .natural 7)]
    let calls : List (MapRole × Value) :=
      [(.key, .bool true), (.value, .str "x"), (.key, .str "a"), (.value, .null),
        (.key, .str "true"), (.value, .str "y"), (.key, .int 7)]
    let result : Value := .map [("true", .str "y"), ("a", .null)]
    let twice : List (MapRole × Datum) := [(.key, .str "a"), (.value, .unit), (.value, .unit)]
    (List.Forall₂ Brings (unused :: steps) ((.key, .str "c") :: calls) ∧
      (Datum.map (unused :: steps)).toValue = .ok result ∧ (Datum.map steps).toValue = .ok result ∧
      ∃ members entries : Entries Value,
        [(some "true", Value.str "x"), (some "a", .null), (some "true", .str "y")] =
          members.map (fun member => (some member.1, member.2)) ∧
        members.Collects entries ∧ result = .map entries) ∧
    ∃ e, (Datum.map twice).toValue = .error e := by
  intro unused steps calls result twice
  have hbrings : List.Forall₂ Brings (unused :: steps) ((.key, .str "c") :: calls) :=
    .cons ⟨rfl, rfl⟩ (.cons ⟨rfl, rfl⟩ (.cons ⟨rfl, rfl⟩ (.cons ⟨rfl, rfl⟩ (.cons ⟨rfl, rfl⟩
      (.cons ⟨rfl, rfl⟩ (.cons ⟨rfl, rfl⟩ (.cons ⟨rfl, rfl⟩ .nil)))))))
  have htwice : List.Forall₂ Brings twice
      [(.key, .str "a"), (.value, .null), (.value, .null)] :=
    .cons ⟨rfl, rfl⟩ (.cons ⟨rfl, rfl⟩ (.cons ⟨rfl, rfl⟩ .nil))
  have hresult : (Datum.map (unused :: steps)).toValue = .ok result := rfl
  obtain ⟨hmembers, hunused⟩ := (toValue_map_calls hbrings).2 _ hresult
  refine ⟨⟨hbrings, hresult, ?_, hmembers⟩, (toValue_map_calls htwice).1.2 ?_⟩
  · exact hunused [] (.str "c") steps rfl fun next hnext => Option.some.inj hnext ▸ rfl
  · exact ⟨[(.key, .str "a"), (.value, .null)], (.value, .null), [], rfl, rfl⟩

end Datum

end Stencil
