import Mathlib
import Stencil.Proofs.Helper.Errors

/-!
# Dates that cannot be written

A pattern is read as a whole before a date is written by it, and a pattern that cannot be read is an
error. This rules out unknown specifiers only. A specifier of the zone is read as any other one, and
where the date has no zone it has no text: then `format_date` does not come back.

## Main definitions

* `Calendar.Phrase.namesZone` - the phrases that need a zone
* `Calendar.Item.isWritable` - whether an item has a text, with or without a zone
* `Invocation.dateFormat` - the pattern that a call of `format_date` is given

Main statements: `Helper.run_formatDateHelper`, `Helper.formatDate_ne_missingZone`.
-/

namespace Stencil

namespace Calendar

/-- Whether a phrase names the zone or its offset. -/
def Phrase.namesZone : Phrase → Bool
  | .zoneName => true
  | .offset => true
  | .offsetColon => true
  | .offsetSeconds => true
  | .offsetHours => true
  | .rfc3339 => true
  | _ => false

/-- Whether an item has a text. The offset in the form that leaves its colon open never has one, and
the others that name the zone have one if there is a zone. -/
def Item.isWritable (zoned : Bool) : Item → Bool
  | .phrase .offsetLoose => false
  | .phrase p => zoned || !p.namesZone
  | _ => true

theorem Item.isSome_write? (m : Moment) (item : Item) :
    (item.write? m).isSome = item.isWritable m.zoned := by
  obtain ⟨time, zoned⟩ := m
  cases item with
  | char c => rfl
  | field f pad => rfl
  | phrase p => cases p <;> cases zoned <;> rfl

/-- A moment has a text by a pattern if all items have one. -/
theorem Moment.isSome_format? (m : Moment) (items : List Item) :
    (m.format? items).isSome = items.all (Item.isWritable m.zoned) := by
  induction items with
  | nil => rfl
  | cons item items ih =>
    rw [List.all_cons, ← ih, ← Item.isSome_write?, Moment.format?]
    cases item.write? m with
    | none => rfl
    | some front => cases m.format? items <;> rfl

theorem Moment.format?_eq_none_iff {m : Moment} {items : List Item} :
    m.format? items = none ↔ ∃ item ∈ items, item.isWritable m.zoned = false := by
  rw [← Option.not_isSome_iff_eq_none, m.isSome_format?, List.all_eq_true]
  simp

/-! ### Patterns without a zone -/

/-- The letters of the specifiers that need a zone. -/
def zoneLetters : List Char := ['Z', 'z', '+']

theorem Item.isWritable_mono {item : Item} (h : item.isWritable false = true) (zoned : Bool) :
    item.isWritable zoned = true := by
  cases zoned with
  | false => exact h
  | true =>
    cases item with
    | char c => rfl
    | field f pad => rfl
    | phrase p => cases p <;> first | rfl | cases h

theorem Item.isWritable_of_ofLetter? {c : Char} {items : List Item} (h : ofLetter? c = some items)
    (hc : c ∉ zoneLetters) : ∀ item ∈ items, item.isWritable false = true := by
  unfold ofLetter? at h
  split at h <;> cases h
  all_goals first | decide | exact absurd (by decide) hc

theorem Item.isWritable_of_padded? {pad : Pad} {c : Char} {items : List Item}
    (h : padded? pad c = some items) : ∀ item ∈ items, item.isWritable false = true := by
  unfold padded? at h
  split at h
  · cases h
    simp [isWritable]
  · cases h

theorem Pattern.subset_of_specifier? {text rest : List Char} {items : List Item}
    (h : specifier? text = some (items, rest)) : rest ⊆ text := by
  unfold specifier? at h
  split at h <;> simp_all <;> grind

/-- A specifier that needs a zone has one of the letters. -/
theorem Pattern.isWritable_of_specifier? {text rest : List Char} {items : List Item}
    (h : specifier? text = some (items, rest)) (htext : ∀ c ∈ text, c ∉ zoneLetters) :
    ∀ item ∈ items, item.isWritable false = true := by
  have hz : 'z' ∉ text := fun hmem => htext 'z' hmem (by decide)
  unfold specifier? at h
  split at h
  -- The specifiers of an offset end in the letter.
  iterate 4
    · cases hz (by simp)
  iterate 7
    · cases h
      simp [Item.isWritable, Phrase.namesZone]
  iterate 3
    · obtain ⟨items, hitems, heq⟩ := Option.map_eq_some_iff.1 h
      cases heq
      exact Item.isWritable_of_padded? hitems
  · obtain ⟨items, hitems, heq⟩ := Option.map_eq_some_iff.1 h
    cases heq
    exact Item.isWritable_of_ofLetter? hitems (htext _ (.head _))
  · cases h

/-- A pattern without the letters has no item that needs a zone. -/
theorem Pattern.isWritable_of_read? {text : List Char} {items : List Item}
    (h : read? text = some items) (htext : ∀ c ∈ text, c ∉ zoneLetters) :
    ∀ item ∈ items, item.isWritable false = true := by
  fun_induction read? text generalizing items with
  | case1 =>
    cases h
    simp
  | case2 text hspecifier => cases h
  | case3 text specifier rest hspecifier ih =>
    obtain ⟨later, hlater, rfl⟩ := Option.map_eq_some_iff.1 h
    have hspec := isWritable_of_specifier? hspecifier fun c hc => htext c (.tail _ hc)
    have hrest := ih hlater fun c hc => htext c (.tail _ (subset_of_specifier? hspecifier hc))
    exact fun item hitem => (List.mem_append.1 hitem).elim (hspec item) (hrest item)
  | case4 c text hc ih =>
    obtain ⟨later, hlater, rfl⟩ := Option.map_eq_some_iff.1 h
    exact List.forall_mem_cons.2 ⟨rfl, ih hlater fun c hc => htext c (.tail _ hc)⟩

end Calendar

/-- The pattern that a call of `format_date` is given. -/
def Invocation.dateFormat (call : Invocation) : String :=
  (call.params[1]?.map Value.text).getD Helper.defaultDateFormat

namespace Helper

open Calendar

/-- A date is not written if it lacks the zone that the pattern names. -/
theorem formatDate_eq_missingZone_iff {value : Value} {format : String} :
    formatDate value format = .error .missingZone ↔
      ∃ items moment, Pattern.read? format.toList = some items ∧ moment? value = some moment ∧
        ∃ item ∈ items, item.isWritable moment.zoned = false := by
  unfold formatDate
  cases hitems : Pattern.read? format.toList with
  | none => simp
  | some items =>
    cases hmoment : moment? value with
    | none => simp
    | some moment =>
      simp only [Option.some.injEq, exists_and_left, exists_eq_left', ← Moment.format?_eq_none_iff]
      cases moment.format? items with
      | none => simp
      | some text => simp

/-- **What comes of `format_date`.** It comes back with a text or an error, but for the zone: it
does not come back if the value stands for a date and the pattern has an item that the date has no
text for, and only then. -/
theorem run_formatDateHelper (call : Invocation) :
    ∃ result, formatDateHelper.run call = .done result ∧
      ((∃ text, result = .ok text) ∨
        result = .error (.render (.missingArgument call.name 1)) ∨
        result = .error (.render (.dateFormat call.dateFormat)) ∨
        result = .error .missingZone) ∧
      (result = .error .missingZone ↔
        ∃ value items moment, call.params[0]? = some value ∧
          Pattern.read? call.dateFormat.toList = some items ∧ moment? value = some moment ∧
          ∃ item ∈ items, item.isWritable moment.zoned = false) := by
  cases hvalue : call.params[0]? with
  | none =>
    refine ⟨.error (.render (.missingArgument call.name 1)), ?_, .inr (.inl rfl), by simp⟩
    simp [formatDateHelper, ofFunction, Invocation.param, hvalue, bind, Except.bind]
  | some value =>
    refine ⟨formatDate value call.dateFormat, ?_, ?_, ?_⟩
    · simp [formatDateHelper, ofFunction, Invocation.param, hvalue, bind, Except.bind,
        Invocation.dateFormat]
    · rcases formatDate_cases value call.dateFormat with htext | hformat | hzone
      · exact .inl htext
      · exact .inr (.inr (.inl hformat))
      · exact .inr (.inr (.inr hzone))
    · rw [formatDate_eq_missingZone_iff]
      simp

/-- 1970-01-01 has no zone, so its zone is not written, and there is no error either. -/
theorem run_formatDateHelper_zoneName :
    let call : Invocation :=
      ⟨"format_date", [.int 0, .str "%Z"], [], [some "0", some "%Z"], false,
        Scope.ofRoot .null false⟩
    ¬ ∃ result, formatDateHelper.run call = .done result ∧
      ((∃ text, result = .ok text) ∨ ∃ error, error ≠ .missingZone ∧ result = .error error) := by
  intro call
  have hrun : formatDateHelper.run call = .done (.error .missingZone) := by cbv
  rw [hrun]
  rintro ⟨result, hresult, ⟨text, rfl⟩ | ⟨error, herror, rfl⟩⟩
  · cases hresult
  · exact herror (Except.error.inj (Program.done.inj hresult)).symm

/-- **Patterns that are safe for all values.** Where a pattern has none of the letters of the zone,
`format_date` comes back with a text or an error, whatever it is given. -/
theorem formatDate_ne_missingZone {format : String} (h : ∀ c ∈ format.toList, c ∉ zoneLetters)
    (value : Value) : formatDate value format ≠ .error .missingZone := by
  rw [Ne, formatDate_eq_missingZone_iff]
  rintro ⟨items, moment, hitems, -, item, hitem, hwritable⟩
  have hsafe := Pattern.isWritable_of_read? hitems h item hitem
  rw [Item.isWritable_mono hsafe] at hwritable
  cases hwritable

end Helper

end Stencil
