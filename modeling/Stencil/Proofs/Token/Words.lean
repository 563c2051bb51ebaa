import Mathlib.Data.List.Basic
import Mathlib.Data.List.Induction
import Stencil.Token.Scan

/-!
# Words and the gaps between them

A text whose quoted spans are closed and that has no closing mark outside of them can stand in a
tag: the tag ends where its writer ended it. If the text is a row of words with blanks between
them, these words are what is read.

## Main definitions

* `Token.quoteBehind` - the quotation mark that is open behind a text
* `Token.IsQuoted` - a text that can stand in a tag
* `Token.IsWord` - a text that can be a word of a tag
* `Token.IsGap` - blanks
* `Token.Spaced` - words, each behind a gap

Main statements: `Token.breakAtClose_of_isQuoted`, `Token.words?_of_spaced`.
-/

namespace Stencil

open Text

namespace Token

variable {text front back gap word rest : List Char} {words : List (List Char)}

/-- The quotation mark that is open behind a text. -/
def quoteBehind (text : List Char) : Option Char :=
  text.foldl quoteAfter none

/-- A text whose quoted spans are closed and that has no closing mark of a tag outside of them. -/
structure IsQuoted (text : List Char) : Prop where
  closed : quoteBehind text = none
  noClose : ∀ front back, text = front ++ closeMark ++ back → quoteBehind front ≠ none

/-- A text that is not empty, whose quoted spans are closed, and that has neither a blank nor the
closing mark of a tag outside of them. -/
structure IsWord (word : List Char) : Prop extends IsQuoted word where
  ne_nil : word ≠ []
  solid : ∀ front c back, word = front ++ c :: back → quoteBehind front = none → ¬ isBlank c

/-- Blanks. -/
def IsGap (gap : List Char) : Prop :=
  ∀ c ∈ gap, isBlank c

instance (gap : List Char) : Decidable (IsGap gap) :=
  List.decidableBAll (fun c => isBlank c) gap

/-- Words, each behind at least one blank. -/
inductive Spaced : List (List Char) → List Char → Prop where
  | nil : Spaced [] []
  | cons {gap word text : List Char} {words : List (List Char)} (hgap : IsGap gap)
      (hne : gap ≠ []) (hrest : Spaced words text) : Spaced (word :: words) (gap ++ word ++ text)

instance (text : List Char) : Decidable (IsQuoted text) :=
  decidable_of_iff (quoteBehind text = none ∧ ∀ i ∈ List.range text.length,
      closeMark <+: text.drop i → quoteBehind (text.take i) ≠ none) <| by
    refine ⟨fun ⟨hclosed, h⟩ => ⟨hclosed, fun front back htext => ?_⟩,
      fun h => ⟨h.closed, fun i _ ⟨back, hback⟩ => ?_⟩⟩
    · have hlength : front.length < text.length := by simp [htext, closeMark]
      have hdrop : closeMark <+: text.drop front.length := by simp [htext]
      have htake : text.take front.length = front := by simp [htext]
      exact htake ▸ h front.length (List.mem_range.2 hlength) hdrop
    · exact h.noClose (text.take i) back (by rw [List.append_assoc, hback, List.take_append_drop])

instance (word : List Char) : Decidable (IsWord word) :=
  decidable_of_iff (IsQuoted word ∧ word ≠ [] ∧ ∀ i (h : i < word.length),
      quoteBehind (word.take i) = none → ¬ isBlank word[i]) <| by
    refine ⟨fun ⟨hquoted, hne, h⟩ => ⟨hquoted, hne, fun front c back hword hquote => ?_⟩,
      fun h => ⟨h.toIsQuoted, h.ne_nil, fun i hi hquote => ?_⟩⟩
    · subst hword
      simpa using h front.length (by simp) (by simpa using hquote)
    · refine h.solid (word.take i) word[i] (word.drop (i + 1)) ?_ hquote
      rw [List.getElem_cons_drop, List.take_append_drop]

/-! ### Quoted texts -/

theorem quoteBehind_append (front back : List Char) :
    quoteBehind (front ++ back) = back.foldl quoteAfter (quoteBehind front) :=
  List.foldl_append

theorem quoteAfter_none {c : Char} (h : isQuote c = false) : quoteAfter none c = none := by
  simp [quoteAfter, h]

theorem isQuote_of_isBlank {c : Char} (h : isBlank c) : isQuote c = false := by
  refine Bool.eq_false_iff.2 fun hquote => ?_
  simp only [isQuote, Bool.or_eq_true, decide_eq_true_eq] at hquote
  rcases hquote with (rfl | rfl) | rfl <;> exact absurd h (by decide)

theorem ne_of_isBlank {b c : Char} (h : isBlank b) (hc : isBlank c = false) : b ≠ c := by
  rintro rfl
  simp [h] at hc

theorem IsQuoted.nil : IsQuoted [] :=
  ⟨rfl, by simp [closeMark]⟩

theorem isQuoted_singleton {c : Char} (h : isQuote c = false) : IsQuoted [c] := by
  refine ⟨quoteAfter_none h, fun front back hc => ?_⟩
  have := congrArg List.length hc
  simp only [closeMark, List.length_append, List.length_cons, List.length_nil] at this
  omega

/-- Two quoted texts, one behind the other, make no new closing mark, unless the first one ends and
the second one starts with a closing brace. -/
theorem IsQuoted.append (hfront : IsQuoted front) (hback : IsQuoted back)
    (hmeets : front.getLast? = some '\x7d' → back.head? ≠ some '\x7d') :
    IsQuoted (front ++ back) := by
  constructor
  · rw [quoteBehind_append, hfront.closed]
    exact hback.closed
  · intro before behind h
    rw [List.append_assoc, List.append_eq_append_iff] at h
    rcases h with ⟨inner, rfl, hinner⟩ | ⟨inner, rfl, hinner⟩
    · rw [quoteBehind_append, hfront.closed]
      exact hback.noClose inner behind (by rw [hinner, List.append_assoc])
    · -- The mark begins in the first text; it ends there or it is cut by the seam.
      simp only [closeMark] at hinner
      rcases inner with _ | ⟨c, _ | ⟨c', inner⟩⟩
      · exact absurd rfl (hback.noClose [] behind hinner.symm)
      · simp only [List.cons_append, List.nil_append, List.cons.injEq] at hinner
        obtain ⟨rfl, hback⟩ := hinner
        exact absurd (by rw [← hback]; rfl) (hmeets (by simp))
      · simp only [List.cons_append, List.cons.injEq] at hinner
        obtain ⟨rfl, rfl, -⟩ := hinner
        exact hfront.noClose before inner (by simp [closeMark])

theorem IsGap.tail {b : Char} (h : IsGap (b :: gap)) : isBlank b ∧ IsGap gap :=
  List.forall_mem_cons.1 h

theorem IsGap.isQuoted (h : IsGap gap) : IsQuoted gap := by
  induction gap with
  | nil => exact .nil
  | cons b gap ih =>
    obtain ⟨hb, hgap⟩ := h.tail
    refine (isQuoted_singleton (isQuote_of_isBlank hb)).append (ih hgap) fun hlast => ?_
    exact absurd (Option.some.inj hlast) (ne_of_isBlank hb (by decide))

/-! ### The end of a tag -/

/-- The end of a tag is found behind a text, if the quoted spans are closed there and no closing
mark begins in the text outside of them. -/
theorem breakAtClose_of_foldl {mark : List Char} {quote : Option Char}
    (hmark : closeMark <+: mark) (hclosed : text.foldl quoteAfter quote = none)
    (hopen : ∀ front back, text ++ ['\x7d'] = front ++ closeMark ++ back →
      front.foldl quoteAfter quote ≠ none) (rest : List Char) :
    breakAtClose mark quote (text ++ mark ++ rest) = some (text, rest) := by
  obtain ⟨more, rfl⟩ := hmark
  induction text generalizing quote with
  | nil =>
    obtain rfl : quote = none := hclosed
    have hdrop : dropMark? (closeMark ++ more) (closeMark ++ more ++ rest) = some rest :=
      dropMark?_eq_some.2 rfl
    simp only [closeMark, List.cons_append, List.nil_append] at hdrop ⊢
    rw [breakAtClose, if_pos (by decide), hdrop]
  | cons c text ih =>
    have hnone : (if quote = none ∧ (!isQuote c) = true then
        dropMark? (closeMark ++ more) (c :: (text ++ (closeMark ++ more) ++ rest)) else none) =
          none := by
      split
      · next hquote =>
        rw [dropMark?_eq_none]
        intro hprefix
        have hshort : c :: text ++ ['\x7d'] <+: c :: (text ++ (closeMark ++ more) ++ rest) :=
          ⟨'\x7d' :: (more ++ rest), by simp [closeMark]⟩
        obtain ⟨back, hback⟩ := List.prefix_of_prefix_length_le
          ((List.prefix_append closeMark more).trans hprefix) hshort (by simp [closeMark])
        exact hopen [] back hback.symm hquote.1
      · rfl
    have hrest := ih hclosed fun front back h => hopen (c :: front) back (by
      rw [List.cons_append, h]
      rfl)
    rw [List.cons_append, List.cons_append, breakAtClose, hnone, hrest]
    rfl

/-- A tag ends behind its content, if the content is quoted and does not end with a closing brace.
The mark may have more than two closing braces. -/
theorem breakAtClose_of_isQuoted {mark : List Char} (hmark : closeMark <+: mark)
    (htext : IsQuoted text) (hlast : text.getLast? ≠ some '\x7d') (rest : List Char) :
    breakAtClose mark none (text ++ mark ++ rest) = some (text, rest) :=
  breakAtClose_of_foldl hmark htext.closed
    (htext.append (isQuoted_singleton (by decide)) fun h => absurd h hlast).noClose rest

/-! ### The words of a tag -/

theorem wordsFrom?_gap (hgap : IsGap gap) (rest : List Char) :
    wordsFrom? [] none (gap ++ rest) = wordsFrom? [] none rest := by
  induction gap with
  | nil => rfl
  | cons b gap ih =>
    obtain ⟨hb, hgap⟩ := hgap.tail
    rw [List.cons_append, wordsFrom?, if_pos ⟨rfl, hb⟩, if_pos rfl, ih hgap]

/-- A text without blanks outside of quoted spans continues the word that is being read. -/
theorem wordsFrom?_solid {read : List Char} {quote : Option Char}
    (hsolid : ∀ front c back, word = front ++ c :: back → front.foldl quoteAfter quote = none →
      ¬ isBlank c) (rest : List Char) :
    wordsFrom? read quote (word ++ rest) =
      wordsFrom? (word.reverse ++ read) (word.foldl quoteAfter quote) rest := by
  induction word generalizing read quote with
  | nil => rfl
  | cons c word ih =>
    have hc : ¬ (quote = none ∧ isBlank c) := fun h => hsolid [] c word rfl h.1 h.2
    rw [List.cons_append, wordsFrom?, if_neg hc, ih]
    · simp
    · intro front c' back h
      exact hsolid (c :: front) c' back (by rw [h]; rfl)

theorem wordsFrom?_word (hword : IsWord word) (rest : List Char) :
    wordsFrom? [] none (word ++ rest) = wordsFrom? word.reverse none rest := by
  rw [wordsFrom?_solid hword.solid, List.append_nil]
  exact congrArg (wordsFrom? word.reverse · rest) hword.closed

/-- Behind a word that has been read, words behind gaps are read as they are. -/
theorem wordsFrom?_spaced (hwords : ∀ word ∈ words, IsWord word) (h : Spaced words text)
    {read : List Char} (hread : read ≠ []) :
    wordsFrom? read none text = some (read.reverse :: words) := by
  induction h generalizing read with
  | nil => rw [wordsFrom?, if_neg (by simp), if_neg hread]
  | @cons gap word text words hgap hne hrest ih =>
    obtain ⟨hword, hwords⟩ := List.forall_mem_cons.1 hwords
    obtain ⟨b, gap, rfl⟩ := List.exists_cons_of_ne_nil hne
    obtain ⟨hb, hgap⟩ := hgap.tail
    rw [List.append_assoc, List.cons_append, wordsFrom?, if_pos ⟨rfl, hb⟩, if_neg hread,
      wordsFrom?_gap hgap, wordsFrom?_word hword,
      ih hwords (List.reverse_ne_nil_iff.2 hword.ne_nil), List.reverse_reverse]
    rfl

/-- The words of a row of words are these words. -/
theorem words?_of_spaced (hword : IsWord word) (hwords : ∀ word ∈ words, IsWord word)
    (h : Spaced words text) : words? (word ++ text) = some (word :: words) := by
  rw [words?, wordsFrom?_word hword,
    wordsFrom?_spaced hwords h (List.reverse_ne_nil_iff.2 hword.ne_nil), List.reverse_reverse]

/-! ### Rows of words -/

theorem IsWord.head (h : IsWord word) : ∀ c ∈ word.head?, ¬ isBlank c := by
  intro c hc
  obtain ⟨rest, rfl⟩ := List.head?_eq_some_iff.1 hc
  exact h.solid [] c rest rfl rfl

theorem isQuote_of_quoteBehind {q : Char} (h : quoteBehind text = some q) : isQuote q := by
  induction text using List.reverseRecOn with
  | nil => cases h
  | append_singleton text c ih =>
    rw [quoteBehind_append] at h
    cases hquote : quoteBehind text with
    | none =>
      rw [hquote] at h
      simp only [List.foldl_cons, List.foldl_nil, quoteAfter, Option.ite_none_right_eq_some,
        Option.some.injEq] at h
      exact h.2 ▸ h.1
    | some q' =>
      rw [hquote] at h
      simp only [List.foldl_cons, List.foldl_nil, quoteAfter, Option.ite_none_left_eq_some,
        Option.some.injEq] at h
      exact ih (hquote.trans (congrArg some h.2))

/-- The last character of a word is outside of quoted spans or ends one. -/
theorem IsWord.last (h : IsWord word) : ∀ c ∈ word.getLast?, ¬ isBlank c := by
  intro c hc
  obtain ⟨front, rfl⟩ := List.getLast?_eq_some_iff.1 hc
  cases hquote : quoteBehind front with
  | none => exact h.solid front c [] rfl hquote
  | some q =>
    have hclosed := h.closed
    rw [quoteBehind_append, hquote] at hclosed
    have hcq : c = q := by simpa [quoteAfter] using hclosed
    intro hblank
    have := isQuote_of_isBlank hblank
    rw [hcq, isQuote_of_quoteBehind hquote] at this
    cases this

theorem Spaced.head (h : Spaced words text) : ∀ c ∈ text.head?, isBlank c := by
  cases h with
  | nil => simp
  | cons hgap hne hrest =>
    obtain ⟨b, gap, rfl⟩ := List.exists_cons_of_ne_nil hne
    simpa using hgap.tail.1

theorem Spaced.isQuoted (hwords : ∀ word ∈ words, IsWord word) (h : Spaced words text) :
    IsQuoted text := by
  induction h with
  | nil => exact .nil
  | @cons gap word text words hgap hne hrest ih =>
    obtain ⟨hword, hwords⟩ := List.forall_mem_cons.1 hwords
    refine (hgap.isQuoted.append hword.toIsQuoted fun hlast => ?_).append (ih hwords) fun _ hhead =>
      ne_of_isBlank (hrest.head _ hhead) (by decide) rfl
    exact absurd rfl (ne_of_isBlank (hgap _ (List.mem_of_getLast? hlast)) (by decide))

theorem Spaced.last (hwords : ∀ word ∈ words, IsWord word) (h : Spaced words text)
    (hfront : ∀ c ∈ front.getLast?, ¬ isBlank c) : ∀ c ∈ (front ++ text).getLast?, ¬ isBlank c := by
  induction h generalizing front with
  | nil => simpa using hfront
  | @cons gap word text words hgap hne hrest ih =>
    obtain ⟨hword, hwords⟩ := List.forall_mem_cons.1 hwords
    rw [← List.append_assoc]
    refine ih hwords ?_
    rw [← List.append_assoc, List.getLast?_append_of_ne_nil _ hword.ne_nil]
    exact hword.last

/-- A row of words stays as it is when blanks at its ends are taken off. -/
theorem trim_row (hword : IsWord word) (hwords : ∀ word ∈ words, IsWord word)
    (h : Spaced words text) : trim (word ++ text) = word ++ text := by
  refine trim_eq_self ?_ (h.last hwords hword.last)
  rw [List.head?_append_of_ne_nil _ hword.ne_nil]
  exact hword.head

theorem isQuoted_row (hword : IsWord word) (hwords : ∀ word ∈ words, IsWord word)
    (h : Spaced words text) : IsQuoted (word ++ text) :=
  hword.toIsQuoted.append (h.isQuoted hwords) fun _ hhead =>
    ne_of_isBlank (h.head _ hhead) (by decide) rfl

end Token

end Stencil
