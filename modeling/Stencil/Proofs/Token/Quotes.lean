import Stencil.Proofs.Token.TagStarts
import Stencil.Proofs.Token.Words

/-!
# The end of a tag and its words agree on quotation marks

Two readers keep track of quotation marks: one looks for the end of a tag, the other one splits the
content of the tag into words. Where the first one finds the end no quotation mark is open, and none
is when blanks at the ends and the sign of the kind are taken off. So the second one always
succeeds, and its words are all of the content but the blanks outside of quoted spans.

## Main definitions

* `Token.IsContent` - what is split into words, given the text in front of the end of a tag
* `Token.dropGaps` - a text without the blanks outside of its quoted spans
* `Token.SplitsInto` - the words of a text
* `Error.IsOpenQuote` - the error of a quotation mark that is not closed

Main statements: `Token.exists_wordsFrom?_of_foldl`, `Token.splitsInto_of_breakAtClose`.
-/

namespace Stencil

open Text

/-- A quotation mark is not closed in a tag. -/
def Error.IsOpenQuote (e : Error) : Prop :=
  ∃ line content, e = .parse line (.unterminatedQuote content)

namespace Token

variable {line : Nat} {mark text front rest content gap : List Char}

/-- What can stand for the text in front of the end of a tag: the text itself, the text without the
blanks at its ends, and what stands there behind the sign of a kind, again without such blanks. -/
inductive IsContent (front : List Char) : List Char → Prop where
  | whole : IsContent front front
  | trimmed : IsContent front (trim front)
  | behind {sign : Char} {rest : List Char} (hsign : sign ∈ ['#', '/', '>', '&'])
      (hfront : trim front = sign :: rest) : IsContent front (trim rest)

/-- A text without its blanks outside of quoted spans, given the quotation mark that is open in
front of it. -/
def dropGaps (quote : Option Char) : List Char → List Char
  | [] => []
  | c :: text =>
    if quote = none ∧ isBlank c then dropGaps none text
    else c :: dropGaps (quoteAfter quote c) text

/-- The words of a text: none of them is empty, and one behind the other they are the text without
its blanks outside of quoted spans. -/
structure SplitsInto (text : List Char) (words : List (List Char)) : Prop where
  ne_nil : ∀ word ∈ words, word ≠ []
  flatten : words.flatten = dropGaps none text

/-! ### Quotation marks that are closed -/

/-- Where the end of a tag is found no quotation mark is open. -/
theorem foldl_quoteAfter_of_breakAtClose {quote : Option Char}
    (h : breakAtClose mark quote text = some (front, rest)) :
    front.foldl quoteAfter quote = none := by
  induction text generalizing quote front with
  | nil => simp [breakAtClose] at h
  | cons c text ih =>
    simp only [breakAtClose] at h
    split at h
    · next hfound =>
      obtain ⟨rfl, -⟩ : [] = front ∧ _ = rest := by simpa using h
      split at hfound
      · next hopen => exact hopen.1
      · cases hfound
    · simp only [Option.map_eq_some_iff, Prod.exists, Prod.mk.injEq] at h
      obtain ⟨inner, _, hbreak, rfl, rfl⟩ := h
      rw [List.foldl_cons]
      exact ih hbreak

theorem quoteBehind_of_breakAtClose (h : breakAtClose mark none text = some (front, rest)) :
    quoteBehind front = none :=
  foldl_quoteAfter_of_breakAtClose h

theorem quoteBehind_cons {c : Char} (hc : isQuote c = false) (text : List Char) :
    quoteBehind (c :: text) = quoteBehind text := by
  rw [quoteBehind, List.foldl_cons, quoteAfter_none hc, quoteBehind]

theorem quoteBehind_gap_append (hgap : IsGap gap) (text : List Char) :
    quoteBehind (gap ++ text) = quoteBehind text := by
  rw [quoteBehind_append, hgap.isQuoted.closed, quoteBehind]

/-- Blanks neither open quoted spans nor close them. -/
theorem quoteBehind_append_gap (hgap : IsGap gap) (text : List Char) :
    quoteBehind (text ++ gap) = quoteBehind text := by
  have hblank {b : Char} (hb : isBlank b) :
      quoteAfter (quoteBehind text) b = quoteBehind text := by
    have hnone := isQuote_of_isBlank hb
    cases hquote : quoteBehind text with
    | none => exact quoteAfter_none hnone
    | some q =>
      have hne : b ≠ q := by
        rintro rfl
        rw [isQuote_of_quoteBehind hquote] at hnone
        cases hnone
      rw [quoteAfter, if_neg hne]
  rw [quoteBehind_append]
  induction gap with
  | nil => rfl
  | cons b gap ih =>
    obtain ⟨hb, hgap⟩ := hgap.tail
    rw [List.foldl_cons, hblank hb, ih hgap]

theorem exists_eq_append_trim (text : List Char) :
    ∃ lead trail, text = lead ++ trim text ++ trail ∧ IsGap lead ∧ IsGap trail := by
  obtain ⟨trail, htext, htrail⟩ := exists_eq_trimEnd_append (trimStart text)
  refine ⟨text.takeWhile isBlank, trail, ?_, List.all_eq_true.1 List.all_takeWhile, htrail⟩
  rw [List.append_assoc, trim, ← htext, trimStart, List.takeWhile_append_dropWhile]

/-- Blanks at the ends of a text do not change which quotation mark is open behind it. -/
theorem quoteBehind_trim (text : List Char) : quoteBehind (trim text) = quoteBehind text := by
  obtain ⟨lead, trail, htext, hlead, htrail⟩ := exists_eq_append_trim text
  calc quoteBehind (trim text)
      = quoteBehind (lead ++ trim text) := (quoteBehind_gap_append hlead _).symm
    _ = quoteBehind (lead ++ trim text ++ trail) := (quoteBehind_append_gap htrail _).symm
    _ = quoteBehind text := by rw [← htext]

/-- The sign of a kind is no quotation mark. -/
theorem isQuote_of_sign {sign : Char} (h : sign ∈ ['#', '/', '>', '&']) : isQuote sign = false := by
  simp only [List.mem_cons, List.not_mem_nil, or_false] at h
  rcases h with rfl | rfl | rfl | rfl <;> rfl

theorem IsContent.quoteBehind_eq (h : IsContent front content) :
    quoteBehind content = quoteBehind front := by
  cases h with
  | whole => rfl
  | trimmed => exact quoteBehind_trim front
  | behind hsign hfront =>
    rw [quoteBehind_trim, ← quoteBehind_trim front, hfront, quoteBehind_cons (isQuote_of_sign hsign)]

/-! ### Words -/

/-- If no quotation mark is open behind a text, it is split into words. The first one continues the
word that has been read in front of the text. -/
theorem exists_wordsFrom?_of_foldl {read : List Char} {quote : Option Char}
    (h : text.foldl quoteAfter quote = none) :
    ∃ words, wordsFrom? read quote text = some words ∧ (∀ word ∈ words, word ≠ []) ∧
      words.flatten = read.reverse ++ dropGaps quote text := by
  induction text generalizing read quote with
  | nil =>
    obtain rfl : quote = none := h
    refine ⟨_, rfl, ?_⟩
    by_cases hread : read = []
    · simp [hread, dropGaps]
    · simp [hread, dropGaps]
  | cons c text ih =>
    rw [List.foldl_cons] at h
    by_cases hgap : quote = none ∧ isBlank c
    · rw [wordsFrom?, if_pos hgap, dropGaps, if_pos hgap]
      obtain ⟨rfl, hblank⟩ := hgap
      rw [quoteAfter_none (isQuote_of_isBlank hblank)] at h
      obtain ⟨words, hwords, hne, hflatten⟩ := @ih [] none h
      rw [hwords]
      by_cases hread : read = []
      · exact ⟨words, by rw [if_pos hread], hne, by rw [hflatten, hread]⟩
      · refine ⟨read.reverse :: words, by rw [if_neg hread]; rfl, ?_, ?_⟩
        · exact List.forall_mem_cons.2 ⟨List.reverse_ne_nil_iff.2 hread, hne⟩
        · rw [List.flatten_cons, hflatten, List.reverse_nil, List.nil_append]
    · obtain ⟨words, hwords, hne, hflatten⟩ := @ih (c :: read) (quoteAfter quote c) h
      rw [wordsFrom?, if_neg hgap, dropGaps, if_neg hgap]
      refine ⟨words, hwords, hne, ?_⟩
      rw [hflatten, List.reverse_cons, List.append_assoc, List.singleton_append]

theorem exists_splitsInto (h : quoteBehind text = none) :
    ∃ words, words? text = some words ∧ SplitsInto text words := by
  obtain ⟨words, hwords, hne, hflatten⟩ := @exists_wordsFrom?_of_foldl text [] none h
  exact ⟨words, hwords, hne, hflatten⟩

/-! ### Tags -/

theorem failsWith_read (h : quoteBehind content = none) :
    FailsWith (fun e => ¬ e.IsOpenQuote) (Tag.read line content) := by
  obtain ⟨words, hwords, -⟩ := exists_splitsInto h
  rw [Tag.read, hwords]
  split
  · next hnone => cases hnone
  · refine .error ?_
    rintro ⟨line', content', h⟩
    cases h
  · exact .ok _

theorem failsWith_readKind (h : quoteBehind content = none) :
    FailsWith (fun e => ¬ e.IsOpenQuote) (readKind line content) := by
  have hbehind {sign : Char} {rest : List Char} (hsign : sign ∈ ['#', '/', '>', '&'])
      (h : quoteBehind (sign :: rest) = none) :
      FailsWith (fun e => ¬ e.IsOpenQuote) (Tag.read line (trim rest)) := by
    rw [quoteBehind_cons (isQuote_of_sign hsign), ← quoteBehind_trim] at h
    exact failsWith_read h
  unfold readKind
  split
  · exact (hbehind (by simp) h).map _
  · split
    · refine .error ?_
      rintro ⟨line', content', h⟩
      cases h
    · exact .ok _
  · exact (hbehind (by simp) h).map _
  · exact (hbehind (by simp) h).map _
  · exact (failsWith_read h).map _

/-- The content of a tag is split only behind the end of the tag has been found. -/
theorem failsWith_takeTag (line : Nat) (text : List Char) :
    FailsWith (fun e => ¬ e.IsOpenQuote) (takeTag line text) := by
  have hend : ¬ (Error.parse line .unterminatedTag).IsOpenQuote := by
    rintro ⟨line', content, h⟩
    cases h
  have hcomment (split : Option (List Char × List Char)) :
      FailsWith (fun e => ¬ e.IsOpenQuote) (takeComment line split) := by
    cases split with
    | none => exact .error hend
    | some parts => exact .ok _
  have hclosed {mark text front rest : List Char}
      (h : breakAtClose mark none text = some (front, rest)) : quoteBehind (trim front) = none :=
    (quoteBehind_trim front).trans (quoteBehind_of_breakAtClose h)
  unfold takeTag
  split
  · split
    · exact .error hend
    · next hbreak => exact .bind (failsWith_read (hclosed hbreak)) fun _ => .ok _
  · exact hcomment _
  · exact hcomment _
  · split
    · exact .error hend
    · next hbreak => exact .bind (failsWith_readKind (hclosed hbreak)) fun _ => .ok _

/-- **The end of a tag and its words agree on quotation marks.** If the end of a tag is found, the
text in front of it is split into words, and so is what is left of it without the blanks at its ends
and without the sign of a kind. So no template is refused because a quotation mark is not closed in
a tag. -/
theorem splitsInto_of_breakAtClose :
    (∀ mark text front rest, breakAtClose mark none text = some (front, rest) →
      ∀ content, IsContent front content →
        ∃ words, words? content = some words ∧ SplitsInto content words) ∧
    ∀ source e, scan source = .error e → ¬ e.IsOpenQuote := by
  refine ⟨fun mark text front rest hbreak content hcontent => ?_, fun source e hscan => ?_⟩
  · exact exists_splitsInto (hcontent.quoteBehind_eq.trans (quoteBehind_of_breakAtClose hbreak))
  · obtain ⟨front, body, -, hstops⟩ := exists_unreadable_of_scanFrom 1 source.toList e hscan
    cases hstops with
    | tag htag => exact failsWith_takeTag _ _ e htag
    | raw =>
      rintro ⟨line', content', h⟩
      cases h

/-- Braces in a quoted span do not end a tag, and a tag that ends in a quoted span is not closed. -/
theorem splitsInto_of_breakAtClose_quoted :
    (∃ words, words? "if 'a \x7d\x7d b'".toList = some words ∧
      SplitsInto "if 'a \x7d\x7d b'".toList words) ∧
    scan "\x7b\x7b'a\x7d\x7d" = .error (.parse 1 .unterminatedTag) ∧
    ¬ (Error.parse 1 .unterminatedTag).IsOpenQuote := by
  have hbreak : breakAtClose closeMark none " #if 'a \x7d\x7d b' \x7d\x7dc".toList =
      some (" #if 'a \x7d\x7d b' ".toList, ['c']) := by decide +kernel
  have htrim : trim "if 'a \x7d\x7d b'".toList = "if 'a \x7d\x7d b'".toList := by decide +kernel
  have hsign : trim " #if 'a \x7d\x7d b' ".toList = '#' :: "if 'a \x7d\x7d b'".toList := by
    decide +kernel
  have hcontent := IsContent.behind (by decide) hsign
  rw [htrim] at hcontent
  have hscan : scan "\x7b\x7b'a\x7d\x7d" = .error (.parse 1 .unterminatedTag) := by cbv
  exact ⟨splitsInto_of_breakAtClose.1 _ _ _ _ hbreak _ hcontent, hscan,
    splitsInto_of_breakAtClose.2 _ _ hscan⟩

end Token

end Stencil
