/-!
# Searching a text

Marks are short fixed texts such as an opening delimiter. The functions here take a
mark off the front of a text, or split a text at the first place where a mark stands.

## Main definitions

* `dropMark?` - what follows a mark at the front of a text
* `dropLastChar?` - what precedes a character at the end of a text
* `splitAtMark?` - the parts of a text around the first occurrence of a mark
* `splitOn` - the pieces of a text between the characters of a class
-/

namespace Stencil.Text

/-- The text that follows `mark`, if `text` starts with it. -/
def dropMark? : (mark text : List Char) → Option (List Char)
  | [], text => some text
  | _ :: _, [] => none
  | m :: mark, c :: text => if m = c then dropMark? mark text else none

/-- A mark stands in front of a text exactly when the text is the mark and a rest. -/
theorem dropMark?_eq_some {mark text rest : List Char} :
    dropMark? mark text = some rest ↔ text = mark ++ rest := by
  induction mark generalizing text with
  | nil => simp [dropMark?, eq_comm]
  | cons m mark ih =>
    cases text with
    | nil => simp [dropMark?]
    | cons c text =>
      by_cases h : m = c
      · simp [dropMark?, h, ih]
      · simp [dropMark?, h, Ne.symm h]

theorem dropMark?_eq_none {mark text : List Char} :
    dropMark? mark text = none ↔ ¬ mark <+: text := by
  rw [Option.eq_none_iff_forall_ne_some]
  constructor
  · rintro h ⟨rest, rfl⟩
    exact h rest (dropMark?_eq_some.2 rfl)
  · intro h rest hrest
    exact h ⟨rest, (dropMark?_eq_some.1 hrest).symm⟩

/-- Whether a mark stands in front of a text that is long enough does not depend on what follows
the text. -/
theorem dropMark?_append {mark text : List Char} (h : mark.length ≤ text.length)
    (behind : List Char) :
    dropMark? mark (text ++ behind) = (dropMark? mark text).map (· ++ behind) := by
  cases hdrop : dropMark? mark text with
  | some rest =>
    rw [dropMark?_eq_some.1 hdrop]
    exact dropMark?_eq_some.2 (List.append_assoc _ _ _)
  | none =>
    rw [dropMark?_eq_none] at hdrop
    refine dropMark?_eq_none.2 fun hprefix => hdrop ?_
    exact List.prefix_of_prefix_length_le hprefix (List.prefix_append text behind) h

/-- The text that precedes `last`, if `text` ends with that character. -/
def dropLastChar? (last : Char) (text : List Char) : Option (List Char) :=
  if text.getLast? = some last then some text.dropLast else none

/-- A character ends a text exactly when the text is something and that character. -/
theorem dropLastChar?_eq_some {last : Char} {text front : List Char} :
    dropLastChar? last text = some front ↔ text = front ++ [last] := by
  constructor
  · intro h
    simp only [dropLastChar?, Option.ite_none_right_eq_some, Option.some.injEq] at h
    obtain ⟨hlast, rfl⟩ := h
    obtain ⟨front, rfl⟩ := List.getLast?_eq_some_iff.1 hlast
    simp
  · rintro rfl
    simp [dropLastChar?]

theorem length_le_of_dropLastChar? {last : Char} {text front : List Char}
    (h : dropLastChar? last text = some front) : front.length ≤ text.length := by
  rw [dropLastChar?_eq_some.1 h, List.length_append]
  exact Nat.le_add_right _ _

/-- The parts of a text before and after the first occurrence of `mark`. -/
def splitAtMark? (mark : List Char) : List Char → Option (List Char × List Char)
  | [] => if mark = [] then some ([], []) else none
  | c :: text =>
    match dropMark? mark (c :: text) with
    | some rest => some ([], rest)
    | none => (splitAtMark? mark text).map fun (before, after) => (c :: before, after)

/-- The two parts and the mark between them are the whole text. -/
theorem eq_append_of_splitAtMark? {mark text before after : List Char}
    (h : splitAtMark? mark text = some (before, after)) :
    text = before ++ mark ++ after := by
  induction text generalizing before with
  | nil =>
    simp only [splitAtMark?] at h
    split at h <;> simp_all
  | cons c text ih =>
    simp only [splitAtMark?] at h
    split at h
    · next rest hrest =>
      obtain ⟨rfl, rfl⟩ : [] = before ∧ rest = after := by simpa using h
      simpa using dropMark?_eq_some.1 hrest
    · simp only [Option.map_eq_some_iff, Prod.exists, Prod.mk.injEq] at h
      obtain ⟨b, a, hb, rfl, rfl⟩ := h
      simp [ih hb]

/-- A text that cannot be split at a mark does not hold it. -/
theorem not_isInfix_of_splitAtMark?_eq_none {mark text : List Char}
    (h : splitAtMark? mark text = none) : ¬ mark <:+: text := by
  induction text with
  | nil =>
    rw [List.infix_nil]
    rintro rfl
    simp [splitAtMark?] at h
  | cons c text ih =>
    simp only [splitAtMark?] at h
    split at h
    · simp at h
    · next hdrop =>
      rw [List.infix_cons_iff, not_or]
      exact ⟨dropMark?_eq_none.1 hdrop, ih (by simpa using h)⟩

theorem splitAtMark?_eq_none {mark text : List Char} (h : ¬ mark <:+: text) :
    splitAtMark? mark text = none := by
  cases hsplit : splitAtMark? mark text with
  | none => rfl
  | some parts => exact absurd ⟨_, _, (eq_append_of_splitAtMark? hsplit).symm⟩ h

/-- The part in front of the first occurrence of a mark does not hold the mark. -/
theorem not_isInfix_of_splitAtMark? {mark text before after : List Char} (hmark : mark ≠ [])
    (h : splitAtMark? mark text = some (before, after)) : ¬ mark <:+: before := by
  induction text generalizing before with
  | nil => simp [splitAtMark?, hmark] at h
  | cons c text ih =>
    simp only [splitAtMark?] at h
    split at h
    · obtain ⟨rfl, -⟩ : [] = before ∧ _ = after := by simpa using h
      rwa [List.infix_nil]
    · next hdrop =>
      simp only [Option.map_eq_some_iff, Prod.exists, Prod.mk.injEq] at h
      obtain ⟨front, _, hsplit, rfl, rfl⟩ := h
      rw [List.infix_cons_iff, not_or]
      refine ⟨fun hfront => dropMark?_eq_none.1 hdrop ?_, ih hsplit⟩
      rw [eq_append_of_splitAtMark? hsplit, List.append_assoc, ← List.cons_append]
      exact hfront.trans (List.prefix_append _ _)

theorem append_dropLast_prefix (before mark after : List Char) :
    before ++ mark.dropLast <+: before ++ mark ++ after := by
  rw [List.append_assoc, List.prefix_append_right_inj]
  exact (List.dropLast_prefix mark).trans (List.prefix_append _ _)

/-- A text is split at the first place where a mark stands: in front of that place no other
occurrence of the mark even begins. -/
theorem splitAtMark?_eq_some_iff {mark text before after : List Char} (hmark : mark ≠ []) :
    splitAtMark? mark text = some (before, after) ↔
      text = before ++ mark ++ after ∧ ¬ mark <:+: before ++ mark.dropLast := by
  have hpos := List.length_pos_iff.2 hmark
  constructor
  · intro h
    refine ⟨eq_append_of_splitAtMark? h, ?_⟩
    induction text generalizing before with
    | nil => simp [splitAtMark?, hmark] at h
    | cons c text ih =>
      simp only [splitAtMark?] at h
      split at h
      · obtain ⟨rfl, -⟩ : [] = before ∧ _ = after := by simpa using h
        intro hinfix
        have hlength := hinfix.length_le
        simp only [List.nil_append, List.length_dropLast] at hlength
        omega
      · next hdrop =>
        simp only [Option.map_eq_some_iff, Prod.exists, Prod.mk.injEq] at h
        obtain ⟨front, _, hsplit, rfl, rfl⟩ := h
        have htext : front ++ mark.dropLast <+: text := by
          rw [eq_append_of_splitAtMark? hsplit]
          exact append_dropLast_prefix front mark _
        rw [List.cons_append, List.infix_cons_iff, not_or]
        refine ⟨fun hfront => dropMark?_eq_none.1 hdrop ?_, ih hsplit⟩
        exact hfront.trans (List.cons_prefix_cons.2 ⟨rfl, htext⟩)
  · rintro ⟨rfl, hfirst⟩
    induction before with
    | nil =>
      obtain ⟨m, rest, rfl⟩ := List.exists_cons_of_ne_nil hmark
      have hdrop : dropMark? (m :: rest) (m :: (rest ++ after)) = some after :=
        dropMark?_eq_some.2 rfl
      simp [splitAtMark?, hdrop]
    | cons c before ih =>
      rw [List.cons_append, List.infix_cons_iff, not_or] at hfirst
      have hdrop : dropMark? mark (c :: (before ++ mark ++ after)) = none := by
        rw [dropMark?_eq_none]
        intro hprefix
        have htext : c :: (before ++ mark.dropLast) <+: c :: (before ++ mark ++ after) :=
          List.cons_prefix_cons.2 ⟨rfl, append_dropLast_prefix before mark after⟩
        refine hfirst.1 (List.prefix_of_prefix_length_le hprefix htext ?_)
        simp only [List.length_cons, List.length_append, List.length_dropLast]
        omega
      simp only [List.cons_append, splitAtMark?, hdrop, ih hfirst.2]
      rfl

/-- Where a text is split does not depend on what follows it. -/
theorem splitAtMark?_append {mark text before after : List Char} (hmark : mark ≠ [])
    (h : splitAtMark? mark text = some (before, after)) (behind : List Char) :
    splitAtMark? mark (text ++ behind) = some (before, after ++ behind) := by
  obtain ⟨rfl, hfirst⟩ := (splitAtMark?_eq_some_iff hmark).1 h
  exact (splitAtMark?_eq_some_iff hmark).2 ⟨by simp, hfirst⟩

/-- The pieces of a text between the characters that `isMark` accepts; there is one
more piece than there are such characters. -/
def splitOn (isMark : Char → Bool) : List Char → List (List Char)
  | [] => [[]]
  | c :: text =>
    if isMark c then [] :: splitOn isMark text
    else
      match splitOn isMark text with
      | [] => [[c]]
      | piece :: pieces => (c :: piece) :: pieces

/-- The characters that separate the pieces of a text are in none of them. -/
theorem not_isMark_of_mem_splitOn {isMark : Char → Bool} {text piece : List Char}
    (h : piece ∈ splitOn isMark text) : ∀ c ∈ piece, isMark c = false := by
  induction text generalizing piece with
  | nil =>
    obtain rfl := List.mem_singleton.1 h
    exact fun c hc => absurd hc List.not_mem_nil
  | cons first text ih =>
    rw [splitOn] at h
    split at h
    · rcases List.mem_cons.1 h with rfl | h
      · exact fun c hc => absurd hc List.not_mem_nil
      · exact ih h
    · next hfirst =>
      have hfirst : isMark first = false := by simpa using hfirst
      split at h
      · obtain rfl := List.mem_singleton.1 h
        exact List.forall_mem_singleton.2 hfirst
      · next front pieces hpieces =>
        rw [hpieces] at ih
        rcases List.mem_cons.1 h with rfl | h
        · exact List.forall_mem_cons.2 ⟨hfirst, ih (.head _)⟩
        · exact ih (.tail _ h)

end Stencil.Text
