import Mathlib.Data.List.Infix
import Mathlib.Tactic.FinCases
import Stencil.Text.Html

/-!
# Entities can be read back

Every character is written on its own, and what is written for one starts with the only ampersand in
it. So an ampersand in an escaped text starts an entity, nothing that is written for two characters
runs together, and one pass from left to right gives the text back.

## Main definitions

* `Html.specials` - the characters that are written as entities
* `Html.isPlain` - the texts that need no escaping
* `Html.entities` - the texts that stand for a character

Main statements: `Html.unescapeChars_entity`, `Html.exists_entity_of_suffix`,
`Html.escape_reversible`.
-/

namespace Stencil.Text.Html

variable {c : Char} {rest : List Char}

/-- The characters that are written as entities. -/
def specials : List Char := ['&', '<', '>', '\x22', '\x27']

/-- Whether a text has no characters that are written as entities. -/
def isPlain (text : String) : Bool :=
  text.toList.all fun c => c ∉ specials

/-- The texts that stand for a character. -/
def entities : List (List Char) :=
  [['&', 'a', 'm', 'p', ';'], ['&', 'l', 't', ';'], ['&', 'g', 't', ';'],
    ['&', 'q', 'u', 'o', 't', ';'], ['&', '#', '0', '3', '9', ';']]

/-! ### Texts and their characters -/

theorem escape_empty : escape "" = "" := rfl

theorem escape_append (front back : String) :
    escape (front ++ back) = escape front ++ escape back := by
  simp [escape, String.ofList_append]

theorem entity_of_not_mem {c : Char} (h : c ∉ specials) : entity c = [c] := by
  simp only [specials, List.mem_cons, List.not_mem_nil, or_false, not_or] at h
  obtain ⟨hamp, hlt, hgt, hquot, hapos⟩ := h
  simp only [entity, hamp, hlt, hgt, hquot, hapos, if_false]

theorem escape_of_isPlain {text : String} (h : isPlain text) : escape text = text := by
  have hchars (chars : List Char) (h : ∀ c ∈ chars, c ∉ specials) :
      chars.flatMap entity = chars := by
    induction chars with
    | nil => rfl
    | cons c chars ih =>
      rw [List.flatMap_cons, entity_of_not_mem (h c (.head _)),
        ih fun d hd => h d (.tail _ hd)]
      rfl
  have hplain : ∀ c ∈ text.toList, c ∉ specials := by simpa [isPlain] using h
  rw [escape, hchars text.toList hplain, String.ofList_toList]

/-- A special character is written as one of the entities, which is read as this character. -/
theorem entity_of_mem (h : c ∈ specials) :
    entity c ∈ entities ∧ ∀ rest, unescapeChars (entity c ++ rest) = c :: unescapeChars rest := by
  fin_cases h
  · exact ⟨by decide, fun _ => rfl⟩
  · exact ⟨by decide, fun _ => rfl⟩
  · exact ⟨by decide, fun _ => rfl⟩
  · exact ⟨by decide, fun _ => rfl⟩
  · exact ⟨by decide, fun _ => rfl⟩

/-! ### What an escaped text has -/

/-- What is written for a character has no brackets and no quotation marks. -/
theorem not_mem_entity (hc : c ∈ ['<', '>', '\x22', '\x27']) (d : Char) : c ∉ entity d := by
  by_cases hd : d ∈ specials
  · have hall : ∀ mark ∈ entities, ∀ c ∈ ['<', '>', '\x22', '\x27'], c ∉ mark := by
      simp [entities]
    exact hall (entity d) (entity_of_mem hd).1 c hc
  · rw [entity_of_not_mem hd, List.mem_singleton]
    rintro rfl
    exact hd (.tail _ hc)

/-- The only ampersand that is written for a character is the first character of an entity. -/
theorem mem_entities_of_suffix_entity (h : '&' :: rest <:+ entity c) : '&' :: rest ∈ entities := by
  by_cases hc : c ∈ specials
  · have hmark := (entity_of_mem hc).1
    have htail : ∀ mark ∈ entities, '&' ∉ mark.tail := by decide
    obtain ⟨front, hfront⟩ := h
    cases front with
    | nil => rwa [show '&' :: rest = entity c from hfront]
    | cons first front =>
      refine absurd ?_ (htail _ hmark)
      rw [← hfront]
      exact List.mem_append_right front (.head _)
  · rw [entity_of_not_mem hc] at h
    obtain rfl : '&' = c := List.mem_singleton.1 (h.subset (.head _))
    exact absurd (by decide) hc

/-- An ampersand in an escaped text starts an entity. -/
theorem exists_entity_of_suffix {chars : List Char} (h : '&' :: rest <:+ chars.flatMap entity) :
    ∃ mark ∈ entities, mark <+: '&' :: rest := by
  induction chars with
  | nil => exact absurd (List.suffix_nil.1 h) (List.cons_ne_nil _ _)
  | cons c chars ih =>
    rw [List.flatMap_cons] at h
    rcases List.suffix_or_suffix_of_suffix h (List.suffix_append (entity c) _) with hlater | hfirst
    · exact ih hlater
    · -- The ampersand stands in what is written for `c`, or right behind it.
      obtain ⟨front, hfront⟩ := hfirst
      cases front with
      | nil => exact ih (hfront ▸ List.suffix_refl _)
      | cons first front =>
        obtain rfl : first = '&' := (List.cons.inj hfront).1
        rw [← hfront, List.suffix_append_self_iff] at h
        exact ⟨_, mem_entities_of_suffix_entity h, hfront ▸ List.prefix_append _ _⟩

/-! ### Reading entities back -/

theorem unescapeChars_cons (hc : c ≠ '&') (rest : List Char) :
    unescapeChars (c :: rest) = c :: unescapeChars rest := by
  rw [unescapeChars]
  all_goals
    intro _ hamp
    exact absurd hamp hc

/-- What is written for a character is read as this character, whatever follows. -/
theorem unescapeChars_entity (c : Char) (rest : List Char) :
    unescapeChars (entity c ++ rest) = c :: unescapeChars rest := by
  by_cases hc : c ∈ specials
  · exact (entity_of_mem hc).2 rest
  · rw [entity_of_not_mem hc]
    refine unescapeChars_cons ?_ rest
    rintro rfl
    exact hc (.head _)

theorem unescapeChars_flatMap (chars : List Char) :
    unescapeChars (chars.flatMap entity) = chars := by
  induction chars with
  | nil => rfl
  | cons c chars ih => rw [List.flatMap_cons, unescapeChars_entity, ih]

theorem unescape_escape (text : String) : unescape (escape text) = text := by
  rw [unescape, escape, String.toList_ofList, unescapeChars_flatMap, String.ofList_toList]

/-- **Escaped texts are safe, and can be read back.** An escaped text has no brackets and no
quotation marks, and each ampersand in it starts an entity. One pass from left to right that
replaces the entities by their characters gives the text back, so different texts are escaped
differently; and texts can be escaped piece by piece. -/
theorem escape_reversible :
    (∀ text : String,
      (∀ c ∈ ['<', '>', '\x22', '\x27'], c ∉ (escape text).toList) ∧
      (∀ rest, '&' :: rest <:+ (escape text).toList →
        ∃ mark ∈ entities, mark <+: '&' :: rest) ∧
      unescape (escape text) = text) ∧
    Function.Injective escape ∧
    ∀ front back : String, escape (front ++ back) = escape front ++ escape back := by
  refine ⟨fun text => ⟨fun c hc => ?_, fun rest hrest => ?_, unescape_escape text⟩,
    Function.LeftInverse.injective unescape_escape, escape_append⟩
  · rw [escape, String.toList_ofList, List.mem_flatMap]
    rintro ⟨d, -, hd⟩
    exact not_mem_entity hc d hd
  · rw [escape, String.toList_ofList] at hrest
    exact exists_entity_of_suffix hrest

/-- A text with an entity of its own, and with parts of one around a special character. -/
theorem escape_reversible_nested :
    escape "&lt;&<amp;" = "&amp;lt;&amp;&lt;amp;" ∧
      "&lt;amp;".toList <:+ (escape "&lt;&<amp;").toList ∧
      (∃ mark ∈ entities, mark <+: "&lt;amp;".toList) ∧
      unescape "&amp;lt;&amp;&lt;amp;" = "&lt;&<amp;" := by
  obtain ⟨hampersands, hread⟩ := (escape_reversible.1 "&lt;&<amp;").2
  have hescape : escape "&lt;&<amp;" = "&amp;lt;&amp;&lt;amp;" := by decide +kernel
  have hsuffix : "&lt;amp;".toList <:+ (escape "&lt;&<amp;").toList :=
    ⟨"&amp;lt;&amp;".toList, by decide +kernel⟩
  exact ⟨hescape, hsuffix, hampersands _ hsuffix, hescape ▸ hread⟩

end Stencil.Text.Html
