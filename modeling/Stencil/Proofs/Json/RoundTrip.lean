import Stencil.Proofs.Json.Scalars

/-!
# What is written is read

The text of a value is read as this value, with nothing left over, however deep arrays and objects
are nested in it.

## Main definitions

* `Json.IsWritable` - the values whose numbers and strings have a written form of their own

Main statement: `readValue?_write`.
-/

namespace Stencil.Json

open Number Text

mutual

/-- The values whose numbers are written as JSON allows and whose strings all stand for texts. -/
def IsWritable : Json → Prop
  | .number n => n.IsWritable
  | .array items => ItemsWritable items
  | .object members => MembersWritable members
  | .unpaired => False
  | _ => True

/-- The items of an array are writable. -/
def ItemsWritable : List Json → Prop
  | [] => True
  | item :: items => item.IsWritable ∧ ItemsWritable items

/-- The values of the members of an object are writable. -/
def MembersWritable : List (String × Json) → Prop
  | [] => True
  | (_, value) :: members => value.IsWritable ∧ MembersWritable members

end

theorem itemsWritable_iff {items : List Json} :
    ItemsWritable items ↔ ∀ item ∈ items, item.IsWritable := by
  induction items with
  | nil => simp [ItemsWritable]
  | cons item items ih => simp [ItemsWritable, ih]

theorem membersWritable_iff {members : List (String × Json)} :
    MembersWritable members ↔ ∀ member ∈ members, member.2.IsWritable := by
  induction members with
  | nil => simp [MembersWritable]
  | cons member members ih => simp [MembersWritable, ih]

/-! ### The first character -/

/-- A character that starts the written form of a value. -/
def StartsValue (c : Char) : Prop :=
  isSpace c = false ∧ c ≠ ']' ∧ c ≠ '\x7d'

instance (c : Char) : Decidable (StartsValue c) :=
  inferInstanceAs (Decidable (_ ∧ _))

theorem startsValue_of_isDigit {c : Char} (h : isDigit c = true) : StartsValue c := by
  have hne (d : Char) (hd : isDigit d = false) : c ≠ d := by
    rintro rfl
    exact absurd h (by simp [hd])
  refine ⟨?_, hne ']' rfl, hne '\x7d' rfl⟩
  simp [isSpace, hne ' ' rfl, hne '\n' rfl, hne '\t' rfl, hne '\r' rfl]

theorem exists_writeNumber {n : Numeral} (hn : n.IsWritable) :
    ∃ c text, writeNumber n = c :: text ∧ (c = '-' ∨ isDigit c = true) := by
  obtain ⟨c, ds, hwhole⟩ := List.exists_cons_of_ne_nil hn.whole_ne_nil
  have hc : isDigit c = true := hn.whole_digits c (hwhole ▸ .head _)
  unfold writeNumber
  rw [hwhole]
  cases n.negative with
  | true => exact ⟨'-', _, rfl, .inl rfl⟩
  | false => exact ⟨c, _, rfl, .inr hc⟩

/-- The written form of a value starts with a character of its own. -/
theorem exists_write {json : Json} (h : json.IsWritable) (rest : List Char) :
    ∃ c text, write rest json = c :: text ∧ StartsValue c := by
  cases json with
  | null => exact ⟨'n', _, rfl, by decide⟩
  | bool b => cases b <;> exact ⟨_, _, rfl, by decide⟩
  | number n =>
    obtain ⟨c, text, htext, hc⟩ := exists_writeNumber h
    refine ⟨c, text ++ rest, by simp [write, htext], ?_⟩
    rcases hc with rfl | hc
    · exact ⟨rfl, by decide, by decide⟩
    · exact startsValue_of_isDigit hc
  | string text => exact ⟨'\x22', _, rfl, by decide⟩
  | array items => exact ⟨'[', _, rfl, by decide⟩
  | object members => exact ⟨'\x7b', _, rfl, by decide⟩
  | unpaired => exact h.elim

theorem skipSpace_cons {c : Char} (h : isSpace c = false) (text : List Char) :
    skipSpace (c :: text) = c :: text := by
  simp [skipSpace, h]

/-! ### Depth and length -/

mutual

/-- Each level of nesting takes a bracket of its own. -/
theorem depth_le_length_write (rest : List Char) (json : Json) :
    json.depth + rest.length ≤ (write rest json).length := by
  cases json with
  | null => simp [depth, write]; omega
  | bool b => cases b <;> simp [depth, write] <;> omega
  | number n => simp [depth, write]
  | string text => simp [depth, write]
  | array items =>
    have := itemsDepth_le_length_writeItems (']' :: rest) items
    simp only [depth, write, List.length_cons] at this ⊢
    omega
  | object members =>
    have := membersDepth_le_length_writeMembers ('\x7d' :: rest) members
    simp only [depth, write, List.length_cons] at this ⊢
    omega
  | unpaired => simp [depth, write]

theorem itemsDepth_le_length_writeItems (rest : List Char) (items : List Json) :
    itemsDepth items + rest.length ≤ (writeItems rest items).length := by
  match items with
  | [] => simp [itemsDepth, writeItems]
  | [item] =>
    have := depth_le_length_write rest item
    simp only [itemsDepth, writeItems]
    omega
  | item :: next :: items =>
    have hitems := itemsDepth_le_length_writeItems rest (next :: items)
    have hitem := depth_le_length_write (',' :: writeItems rest (next :: items)) item
    simp only [itemsDepth, writeItems, List.length_cons] at hitems hitem ⊢
    omega

theorem membersDepth_le_length_writeMembers (rest : List Char) (members : List (String × Json)) :
    membersDepth members + rest.length ≤ (writeMembers rest members).length := by
  match members with
  | [] => simp [membersDepth, writeMembers]
  | [(name, value)] =>
    have := depth_le_length_write rest value
    simp only [membersDepth, writeMembers, List.length_append, List.length_cons]
    omega
  | (name, value) :: next :: members =>
    have hmembers := membersDepth_le_length_writeMembers rest (next :: members)
    have hvalue := depth_le_length_write (',' :: writeMembers rest (next :: members)) value
    simp only [membersDepth, writeMembers, List.length_append, List.length_cons]
      at hmembers hvalue ⊢
    omega

end

/-- Each item but the last one is followed by a comma. -/
theorem length_le_length_writeItems (rest : List Char) (items : List Json) :
    items.length + rest.length ≤ (writeItems rest items).length + 1 := by
  match items with
  | [] => simp [writeItems]
  | [item] =>
    have := depth_le_length_write rest item
    simp only [List.length_singleton, writeItems]
    omega
  | item :: next :: items =>
    have hitems := length_le_length_writeItems rest (next :: items)
    have hitem := depth_le_length_write (',' :: writeItems rest (next :: items)) item
    simp only [writeItems, List.length_cons] at hitems hitem ⊢
    omega

/-- Each member but the last one is followed by a comma. -/
theorem length_le_length_writeMembers (rest : List Char) (members : List (String × Json)) :
    members.length + rest.length ≤ (writeMembers rest members).length + 1 := by
  match members with
  | [] => simp [writeMembers]
  | [(name, value)] =>
    have := depth_le_length_write rest value
    simp only [writeMembers, List.length_append, List.length_cons, List.length_nil]
    omega
  | (name, value) :: next :: members =>
    have hmembers := length_le_length_writeMembers rest (next :: members)
    have hvalue := depth_le_length_write (',' :: writeMembers rest (next :: members)) value
    simp only [writeMembers, List.length_append, List.length_cons] at hmembers hvalue ⊢
    omega

/-! ### Values -/

/-- What may follow a value: nothing, a comma, or a closing bracket. -/
def EndsValue (rest : List Char) : Prop :=
  ∀ c ∈ rest.head?, c = ',' ∨ c = ']' ∨ c = '\x7d'

theorem EndsValue.endsNumber {rest : List Char} (h : EndsValue rest) : EndsNumber rest := by
  intro c hc
  rcases h c hc with rfl | rfl | rfl <;> exact ⟨rfl, by decide⟩

theorem EndsValue.cons {c : Char} (hc : c = ',' ∨ c = ']' ∨ c = '\x7d') (rest : List Char) :
    EndsValue (c :: rest) := by
  intro d hd
  obtain rfl := Option.some.inj hd
  exact hc

variable {inner : Option Reader} {item : Reader} {rest : List Char}

theorem readWith?_number {n : Numeral} (hn : n.IsWritable) (hrest : EndsNumber rest) :
    readWith? inner (writeNumber n ++ rest) = some (.number n, rest) := by
  have hread := readNumber?_writeNumber hn hrest
  obtain ⟨c, text, htext, hc⟩ := exists_writeNumber hn
  rw [htext, List.cons_append] at hread ⊢
  have hne (d : Char) (hd : isDigit d = false) (hminus : d ≠ '-') : c ≠ d := by
    rintro rfl
    rcases hc with rfl | hc
    · exact hminus rfl
    · exact absurd hc (by simp [hd])
  have hspace : isSpace c = false := by
    simp [isSpace, hne ' ' rfl (by decide), hne '\n' rfl (by decide), hne '\t' rfl (by decide),
      hne '\r' rfl (by decide)]
  unfold readWith?
  rw [skipSpace_cons hspace]
  split
  · next h => exact absurd (List.cons.inj h).1 (hne '\x22' rfl (by decide))
  · next h => exact absurd (List.cons.inj h).1 (hne '[' rfl (by decide))
  · next h => exact absurd (List.cons.inj h).1 (hne '\x7b' rfl (by decide))
  · simp [dropMark?, Ne.symm (hne 'n' rfl (by decide)), Ne.symm (hne 't' rfl (by decide)),
      Ne.symm (hne 'f' rfl (by decide)), hread]

theorem readWith?_string (text : String) :
    readWith? inner (writeString text ++ rest) = some (.string text, rest) := by
  obtain ⟨body, hbody, hread⟩ := readString?_writeString text rest
  rw [hbody]
  unfold readWith?
  rw [skipSpace_cons (by decide)]
  simp [hread, ofChars]

/-- The items of an array are read one after another, if the reader of an item reads each of
them. -/
theorem readItems?_writeItems (rest : List Char) {items : List Json} (hne : items ≠ [])
    (hitem : ∀ value ∈ items, ∀ rest, EndsValue rest → item (write rest value) = some (value, rest))
    (bound : Nat) (hbound : items.length ≤ bound) :
    readItems? item bound (writeItems (']' :: rest) items) = some (items, rest) := by
  induction items generalizing bound with
  | nil => exact absurd rfl hne
  | cons value items ih =>
    obtain ⟨bound, rfl⟩ : ∃ b, bound = b + 1 := ⟨bound - 1, by simp at hbound; omega⟩
    have hvalue := hitem value (.head _)
    cases items with
    | nil =>
      simp [writeItems, readItems?, hvalue _ (EndsValue.cons (.inr (.inl rfl)) rest), skipSpace,
        isSpace]
    | cons next items =>
      have hnext := ih (List.cons_ne_nil _ _) (fun v hv => hitem v (.tail _ hv)) bound
        (by simpa using hbound)
      simp [writeItems, readItems?, hvalue _ (EndsValue.cons (.inl rfl) _), skipSpace, isSpace,
        hnext]

/-- A member with a name that stands for a text. -/
def namedMember (member : String × Json) : Option (List Char) × Json :=
  (some member.1.toList, member.2)

theorem mapM_map_namedMember (members : List (String × Json)) :
    (members.map namedMember).mapM (fun (name, value) =>
      name.map fun name => (String.ofList name, value)) = some members := by
  induction members with
  | nil => rfl
  | cons member members ih => simp [List.mapM_cons, ih, namedMember]

theorem ofMembers_map_namedMember (members : List (String × Json)) :
    ofMembers (members.map namedMember) = .object members := by
  unfold ofMembers
  rw [mapM_map_namedMember]

/-- The members of an object are read one after another, if the reader of an item reads the
value of each of them. -/
theorem readMembers?_writeMembers (rest : List Char) {members : List (String × Json)}
    (hne : members ≠ [])
    (hitem : ∀ member ∈ members, ∀ rest, EndsValue rest →
      item (write rest member.2) = some (member.2, rest))
    (bound : Nat) (hbound : members.length ≤ bound) :
    readMembers? item bound (writeMembers ('\x7d' :: rest) members) =
      some (members.map namedMember, rest) := by
  induction members generalizing bound with
  | nil => exact absurd rfl hne
  | cons member members ih =>
    obtain ⟨name, value⟩ := member
    obtain ⟨bound, rfl⟩ : ∃ b, bound = b + 1 := ⟨bound - 1, by simp at hbound; omega⟩
    have hvalue := hitem (name, value) (.head _)
    have hname := readString?_writeString name
    cases members with
    | nil =>
      obtain ⟨body, hbody, hread⟩ := hname (':' :: write ('\x7d' :: rest) value)
      simp [writeMembers, hbody, readMembers?, dropMark?, hread,
        hvalue _ (EndsValue.cons (.inr (.inr rfl)) rest), skipSpace, isSpace, namedMember]
    | cons next members =>
      have hnext := ih (List.cons_ne_nil _ _) (fun v hv => hitem v (.tail _ hv)) bound
        (by simpa using hbound)
      obtain ⟨body, hbody, hread⟩ :=
        hname (':' :: write (',' :: writeMembers ('\x7d' :: rest) (next :: members)) value)
      simp [writeMembers, hbody, readMembers?, dropMark?, hread,
        hvalue _ (EndsValue.cons (.inl rfl) _), skipSpace, isSpace, hnext, namedMember]

theorem readWith?_bracket (item : Reader) (text : List Char) :
    readWith? (some item) ('[' :: text) =
      match skipSpace text with
      | ']' :: rest => some (.array [], rest)
      | text => (readItems? item text.length text).map fun (items, rest) =>
        (.array items, rest) := rfl

theorem readWith?_brace (item : Reader) (text : List Char) :
    readWith? (some item) ('\x7b' :: text) =
      match skipSpace text with
      | '\x7d' :: rest => some (.object [], rest)
      | text => (readMembers? item text.length text).map fun (members, rest) =>
        (ofMembers members, rest) := rfl

theorem readWith?_array {items : List Json} (hwritable : ∀ value ∈ items, value.IsWritable)
    (hitem : ∀ value ∈ items, ∀ rest, EndsValue rest →
      item (write rest value) = some (value, rest)) :
    readWith? (some item) (write rest (.array items)) = some (.array items, rest) := by
  rw [write, readWith?_bracket]
  cases items with
  | nil => simp [writeItems, skipSpace, isSpace]
  | cons first items =>
    have hlength := length_le_length_writeItems (']' :: rest) (first :: items)
    have hbound : (first :: items).length ≤ (writeItems (']' :: rest) (first :: items)).length := by
      simp only [List.length_cons] at hlength ⊢
      omega
    have hitems := readItems?_writeItems rest (List.cons_ne_nil first items) hitem _ hbound
    obtain ⟨c, text, htext, hspace, hbracket, -⟩ : ∃ c text,
        writeItems (']' :: rest) (first :: items) = c :: text ∧ StartsValue c := by
      cases items with
      | nil => exact exists_write (hwritable first (.head _)) _
      | cons next items => exact exists_write (hwritable first (.head _)) _
    rw [htext] at hitems ⊢
    rw [skipSpace_cons hspace]
    split
    · next h => exact absurd (List.cons.inj h).1 hbracket
    · rw [hitems]
      rfl

theorem readWith?_object {members : List (String × Json)}
    (hitem : ∀ member ∈ members, ∀ rest, EndsValue rest →
      item (write rest member.2) = some (member.2, rest)) :
    readWith? (some item) (write rest (.object members)) = some (.object members, rest) := by
  rw [write, readWith?_brace]
  cases members with
  | nil => simp [writeMembers, skipSpace, isSpace]
  | cons first members =>
    have hlength := length_le_length_writeMembers ('\x7d' :: rest) (first :: members)
    have hbound : (first :: members).length ≤
        (writeMembers ('\x7d' :: rest) (first :: members)).length := by
      simp only [List.length_cons] at hlength ⊢
      omega
    have hmembers := readMembers?_writeMembers rest (List.cons_ne_nil first members) hitem _ hbound
    obtain ⟨text, htext⟩ : ∃ text,
        writeMembers ('\x7d' :: rest) (first :: members) = '\x22' :: text := by
      cases members <;> exact ⟨_, rfl⟩
    rw [htext] at hmembers ⊢
    rw [skipSpace_cons (by decide)]
    split
    · next h => exact absurd (List.cons.inj h).1 (by decide)
    · simp only [hmembers, Option.map_some, ofMembers_map_namedMember]

theorem readWith?_scalar {json : Json} (hjson : json.IsWritable) (hdepth : json.depth = 0)
    (hrest : EndsValue rest) : readWith? inner (write rest json) = some (json, rest) := by
  cases json with
  | null => simp [write, readWith?, skipSpace, isSpace, dropMark?]
  | bool b => cases b <;> simp [write, readWith?, skipSpace, isSpace, dropMark?]
  | number n => exact readWith?_number hjson hrest.endsNumber
  | string text => exact readWith?_string text
  | array items => simp [depth] at hdepth
  | object members => simp [depth] at hdepth
  | unpaired => exact hjson.elim

theorem depth_le_itemsDepth {items : List Json} {value : Json} (h : value ∈ items) :
    value.depth ≤ itemsDepth items := by
  induction items with
  | nil => simp at h
  | cons first items ih =>
    simp only [itemsDepth]
    rcases List.mem_cons.1 h with rfl | h
    · exact Nat.le_max_left _ _
    · exact Nat.le_trans (ih h) (Nat.le_max_right _ _)

theorem depth_le_membersDepth {members : List (String × Json)} {member : String × Json}
    (h : member ∈ members) : member.2.depth ≤ membersDepth members := by
  induction members with
  | nil => simp at h
  | cons first members ih =>
    simp only [membersDepth]
    rcases List.mem_cons.1 h with rfl | h
    · exact Nat.le_max_left _ _
    · exact Nat.le_trans (ih h) (Nat.le_max_right _ _)

/-- The written form of a value is read as this value, and what follows it is left, if there are
enough levels for the arrays and objects inside of each other. -/
theorem readValue?_write {levels : Nat} {json : Json} (hjson : json.IsWritable)
    (hdepth : json.depth ≤ levels) {rest : List Char} (hrest : EndsValue rest) :
    readValue? levels (write rest json) = some (json, rest) := by
  -- The levels of the reader are those of the arrays and objects, so the induction is on them.
  induction levels generalizing json rest with
  | zero => exact readWith?_scalar hjson (Nat.le_zero.1 hdepth) hrest
  | succ levels ih =>
    cases json with
    | array items =>
      have hitems : ∀ value ∈ items, value.IsWritable := itemsWritable_iff.1 hjson
      have hlevels : itemsDepth items ≤ levels := Nat.le_of_succ_le_succ hdepth
      refine readWith?_array hitems fun value hvalue rest hrest => ?_
      exact ih (hitems value hvalue) (Nat.le_trans (depth_le_itemsDepth hvalue) hlevels) hrest
    | object members =>
      have hmembers : ∀ member ∈ members, member.2.IsWritable := membersWritable_iff.1 hjson
      have hlevels : membersDepth members ≤ levels := Nat.le_of_succ_le_succ hdepth
      refine readWith?_object fun member hmember rest hrest => ?_
      have hdepth := Nat.le_trans (depth_le_membersDepth hmember) hlevels
      exact ih (hmembers member hmember) hdepth hrest
    | _ => exact readWith?_scalar hjson rfl hrest

theorem readValue?_text {json : Json} (hjson : json.IsWritable) :
    readValue? json.text.toList.length json.text.toList = some (json, []) := by
  have htext : json.text.toList = write [] json := String.toList_ofList
  have hdepth := depth_le_length_write [] json
  rw [htext]
  exact readValue?_write hjson (by simpa using hdepth) (by simp [EndsValue])

mutual

theorem isPaired_of_isWritable {json : Json} (h : json.IsWritable) : json.isPaired = true := by
  cases json with
  | array items => exact itemsPaired_of_itemsWritable h
  | object members => exact membersPaired_of_membersWritable h
  | unpaired => exact h.elim
  | _ => rfl

theorem itemsPaired_of_itemsWritable {items : List Json} (h : ItemsWritable items) :
    itemsPaired items = true := by
  match items with
  | [] => rfl
  | item :: items =>
    simp [itemsPaired, isPaired_of_isWritable h.1, itemsPaired_of_itemsWritable h.2]

theorem membersPaired_of_membersWritable {members : List (String × Json)}
    (h : MembersWritable members) : membersPaired members = true := by
  match members with
  | [] => rfl
  | (name, value) :: members =>
    simp [membersPaired, isPaired_of_isWritable h.1, membersPaired_of_membersWritable h.2]

end

theorem readForm?_of_readValue? {levels : Nat} {text : List Char} {json : Json}
    (h : readValue? levels text = some (json, [])) : readForm? levels text = some json := by
  unfold readForm?
  rw [h]
  rfl

theorem read?_text {json : Json} (hjson : json.IsWritable) : read? json.text = some json := by
  unfold read? readNested?
  rw [readForm?_of_readValue? (readValue?_text hjson), Option.filter_some,
    if_pos (isPaired_of_isWritable hjson)]

end Stencil.Json
