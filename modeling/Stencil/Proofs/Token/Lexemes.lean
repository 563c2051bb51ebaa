import Mathlib.Data.List.Forall2
import Stencil.Proofs.Token.Scans

/-!
# The tokens of a text cover it

Every character of a text belongs to exactly one token: the text is the lexemes of its tokens, one
behind the other, and each token knows the line on which its lexeme starts.

## Main definitions

* `Token.IsRawOpen` - the opening tag of a raw block
* `Token.IsLexeme` - a part of a text that a token can stand for
* `Token.Lexemes` - a text, its tokens and their lexemes
-/

namespace Stencil

open Text

namespace Token

variable {mark text front rest : List Char} {quote : Option Char} {line : Nat}

/-- The end of a tag does not depend on what follows it. -/
theorem breakAtClose_append (hmark : mark ≠ [])
    (h : breakAtClose mark quote text = some (front, rest)) (behind : List Char) :
    breakAtClose mark quote (front ++ mark ++ behind) = some (front, behind) := by
  induction text generalizing quote front with
  | nil => simp [breakAtClose] at h
  | cons c text ih =>
    simp only [breakAtClose] at h
    split at h
    · next hfound =>
      obtain ⟨rfl, rfl⟩ : [] = front ∧ _ = rest := by simpa using h
      split at hfound
      · next hopen =>
        obtain ⟨m, mark, rfl⟩ := List.exists_cons_of_ne_nil hmark
        have hm : m = c := (List.cons.inj (dropMark?_eq_some.1 hfound)).1.symm
        have hdrop : dropMark? (m :: mark) (m :: (mark ++ behind)) = some behind :=
          dropMark?_eq_some.2 rfl
        rw [← hm] at hopen
        simp only [List.nil_append, List.cons_append, breakAtClose, if_pos hopen, hdrop]
      · simp at hfound
    · next hfound =>
      simp only [Option.map_eq_some_iff, Prod.exists, Prod.mk.injEq] at h
      obtain ⟨inner, _, hbreak, rfl, rfl⟩ := h
      -- The mark is no longer than what stands between here and its first occurrence and itself.
      have hlocal : mark <+: c :: (inner ++ mark ++ behind) → mark <+: c :: text := by
        intro hprefix
        have hshort : mark <+: c :: (inner ++ mark) :=
          List.prefix_of_prefix_length_le hprefix
            (show c :: (inner ++ mark) <+: c :: (inner ++ mark) ++ behind from
              List.prefix_append _ _) (by simp only [List.length_cons, List.length_append]; omega)
        rw [eq_append_of_breakAtClose hbreak]
        exact hshort.trans (List.prefix_append _ _)
      rw [List.cons_append, List.cons_append, breakAtClose]
      split
      · next hfound' =>
        split at hfound'
        · next hopen =>
          rw [if_pos hopen, dropMark?_eq_none] at hfound
          exact absurd (hlocal ⟨_, (dropMark?_eq_some.1 hfound').symm⟩) hfound
        · simp at hfound'
      · rw [ih hbreak]
        rfl

/-! ### Lexemes -/

/-- The opening tag of a raw block: a text between two opening braces and the first two closing
braces outside of quoted spans, whose first word behind the mark of an opening tag is the name of
raw blocks. -/
def IsRawOpen (lexeme : List Char) : Prop :=
  ∃ inner rest words, lexeme = openMark ++ inner ++ closeMark ∧
    breakAtClose closeMark none (inner ++ closeMark) = some (inner, []) ∧
    trim inner = '#' :: rest ∧ words? (trim rest) = some (rawName :: words)

/-- A part of a text that a token can stand for. That of a text token is its text, which holds no
mark of a tag. That of a raw block is its opening tag, its text as it is, and its closing tag. Those
of all other tokens stand between double braces. -/
def IsLexeme (token : Token) (lexeme : List Char) : Prop :=
  match token.kind with
  | .text body => lexeme = body.toList ∧ lexeme ≠ [] ∧ ¬ openMark <:+: lexeme
  | .raw body => ∃ opening, IsRawOpen opening ∧ lexeme = opening ++ body.toList ++ rawClose
  | _ => ∃ inner, lexeme = openMark ++ inner ++ closeMark

/-- Whether a token is a text. -/
def isText (token : Token) : Bool :=
  match token.kind with
  | .text _ => true
  | _ => false

/-- A text that starts on the given line, its tokens and their lexemes: the lexemes one behind the
other are the text, no two texts are neighbours, and each token is on the line on which its
lexeme starts. -/
structure Lexemes (line : Nat) (text : List Char) (tokens : List Token)
    (lexemes : List (List Char)) : Prop where
  flatten : lexemes.flatten = text
  isLexeme : List.Forall₂ IsLexeme tokens lexemes
  apart : tokens.IsChain fun a b => ¬ (a.isText ∧ b.isText)
  lines : ∀ i token, tokens[i]? = some token →
    token.line = line + lineFeeds (lexemes.take i).flatten

theorem IsLexeme.ne_nil {token : Token} {lexeme : List Char} (h : IsLexeme token lexeme) :
    lexeme ≠ [] := by
  unfold IsLexeme at h
  split at h
  · exact h.2.1
  · obtain ⟨opening, -, rfl⟩ := h
    simp [rawClose, openMark]
  · obtain ⟨inner, rfl⟩ := h
    simp [openMark]

theorem Lexemes.nil (line : Nat) : Lexemes line [] [] [] :=
  ⟨rfl, .nil, .nil, by simp⟩

/-- Another token in front, on the line on which the text starts. -/
theorem Lexemes.cons {token : Token} {lexeme : List Char} {tokens : List Token}
    {lexemes : List (List Char)} (hlexeme : IsLexeme token lexeme)
    (hapart : token.isText → ∀ next ∈ tokens.head?, next.isText = false)
    (h : Lexemes (token.line + lineFeeds lexeme) text tokens lexemes) :
    Lexemes token.line (lexeme ++ text) (token :: tokens) (lexeme :: lexemes) where
  flatten := by rw [List.flatten_cons, h.flatten]
  isLexeme := .cons hlexeme h.isLexeme
  apart := by
    cases tokens with
    | nil => exact .singleton token
    | cons next tokens =>
      rw [List.isChain_cons_cons]
      refine ⟨fun hboth => ?_, h.apart⟩
      simp [hapart hboth.1 next rfl] at hboth
  lines := by
    intro i token' htoken'
    cases i with
    | zero =>
      obtain rfl : token = token' := by simpa using htoken'
      simp [lineFeeds]
    | succ i =>
      rw [List.getElem?_cons_succ] at htoken'
      rw [h.lines i token' htoken', List.take_succ_cons, List.flatten_cons, lineFeeds_append]
      omega

/-- Text in front of a tag. -/
theorem Lexemes.textToken {tokens : List Token} {lexemes : List (List Char)}
    (hfront : ¬ openMark <:+: front) (hapart : ∀ next ∈ tokens.head?, next.isText = false)
    (h : Lexemes (line + lineFeeds front) text tokens lexemes) :
    ∃ lexemes', Lexemes line (front ++ text) (textToken line front ++ tokens) lexemes' := by
  by_cases hnil : front = []
  · subst hnil
    exact ⟨lexemes, by simpa [Token.textToken, lineFeeds] using h⟩
  · have hlexeme : IsLexeme ⟨.text (String.ofList front), line⟩ front :=
      ⟨String.toList_ofList.symm, hnil, hfront⟩
    rw [Token.textToken, if_neg hnil]
    exact ⟨front :: lexemes, .cons hlexeme (fun _ => hapart) h⟩

/-- The kinds of tokens that are tags: all but texts and raw blocks. -/
def isTag : TokenKind → Bool
  | .text _ => false
  | .raw _ => false
  | _ => true

theorem isTag_of_readKind {content : List Char} {kind : TokenKind}
    (h : readKind line content = .ok kind) : isTag kind := by
  unfold readKind at h
  split at h
  · obtain ⟨tag, -, rfl⟩ := map_eq_ok.1 h
    rfl
  · split at h
    · simp at h
    · obtain rfl := Except.ok.inj h
      rfl
  all_goals
    obtain ⟨tag, -, rfl⟩ := map_eq_ok.1 h
    rfl

theorem isTag_of_takeTag {taken : Taken} (h : takeTag line text = .ok taken) :
    isTag taken.kind := by
  rcases cases_of_takeTag h with ⟨body, tag, -, -, -, hkind⟩ | ⟨body, -, -, hkind⟩ |
    ⟨body, -, -, hkind⟩ | ⟨-, hkind⟩
  · rw [hkind]
    rfl
  · rw [hkind]
    rfl
  · rw [hkind]
    rfl
  · exact isTag_of_readKind hkind

theorem exists_words_of_read {content : List Char} {tag : Tag}
    (h : Tag.read line content = .ok tag) :
    ∃ words, words? content = some (tag.name.toList :: words) := by
  unfold Tag.read at h
  split at h
  · simp at h
  · simp at h
  · next name words hwords =>
    obtain rfl := Except.ok.inj h
    exact ⟨words, by simpa using hwords⟩

/-- An opening tag with the name of raw blocks is the opening tag of a raw block. -/
theorem isRawOpen_of_takeTag {taken : Taken} (h : takeTag line text = .ok taken)
    (hraw : opensRaw taken.kind) :
    IsRawOpen (openMark ++ taken.inner ++ closeMark) ∧
      text = taken.inner ++ closeMark ++ taken.rest := by
  rcases cases_of_takeTag h with ⟨body, tag, -, -, -, hkind⟩ | ⟨body, -, -, hkind⟩ |
    ⟨body, -, -, hkind⟩ | ⟨hbreak, hkind⟩
  · simp [hkind, opensRaw] at hraw
  · simp [hkind, opensRaw] at hraw
  · simp [hkind, opensRaw] at hraw
  · refine ⟨⟨taken.inner, ?_⟩, eq_append_of_breakAtClose hbreak⟩
    have hclose := breakAtClose_append (by simp [closeMark]) hbreak []
    rw [List.append_nil] at hclose
    unfold readKind at hkind
    split at hkind
    · next rest htrim =>
      obtain ⟨tag, htag, hopening⟩ := map_eq_ok.1 hkind
      have hname : tag.name = String.ofList rawName := by
        simpa [← hopening, opensRaw] using hraw
      obtain ⟨words, hwords⟩ := exists_words_of_read htag
      rw [hname, String.toList_ofList] at hwords
      exact ⟨rest, words, rfl, hclose, htrim, hwords⟩
    · split at hkind
      · simp at hkind
      · simp [← Except.ok.inj hkind, opensRaw] at hraw
    all_goals
      obtain ⟨tag, -, hopening⟩ := map_eq_ok.1 hkind
      simp [← hopening, opensRaw] at hraw

theorem isLexeme_of_isTag (token : Token) (h : isTag token.kind) (inner : List Char) :
    IsLexeme token (openMark ++ inner ++ closeMark) ∧ token.isText = false := by
  obtain ⟨kind, line⟩ := token
  cases kind with
  | text body => exact absurd h (by simp [isTag])
  | raw body => exact absurd h (by simp [isTag])
  | opening tag => exact ⟨⟨inner, rfl⟩, rfl⟩
  | closing name => exact ⟨⟨inner, rfl⟩, rfl⟩
  | partialTag tag => exact ⟨⟨inner, rfl⟩, rfl⟩
  | output tag escaped => exact ⟨⟨inner, rfl⟩, rfl⟩
  | comment body => exact ⟨⟨inner, rfl⟩, rfl⟩

/-- The item behind the mark of a tag is one lexeme together with the mark: a tag, or a raw block
with both of its tags. -/
theorem Takes.exists_lexeme {body rest : List Char} {kind : TokenKind} {feeds : Nat}
    (h : Takes line body kind feeds rest) (tagLine : Nat) :
    ∃ lexeme, IsLexeme ⟨kind, tagLine⟩ lexeme ∧ (⟨kind, tagLine⟩ : Token).isText = false ∧
      openMark ++ body = lexeme ++ rest ∧ lineFeeds lexeme = feeds := by
  cases h with
  | @tag taken htag hopens =>
    -- The scanner counts the lines between the marks, the lexeme has all of the tag.
    obtain ⟨inner, hbody, hinner⟩ := exists_append_of_takeTag htag
    obtain ⟨hlexeme, hnoText⟩ :=
      isLexeme_of_isTag ⟨taken.kind, tagLine⟩ (isTag_of_takeTag htag) inner
    refine ⟨_, hlexeme, hnoText, ?_, ?_⟩
    · rw [hbody]
      simp only [List.append_assoc]
    · rw [List.append_assoc, lineFeeds_append, lineFeeds_openMark, hinner, Nat.zero_add]
  | @raw taken raw rest htag hopens hraw =>
    obtain ⟨hopening, hbody⟩ := isRawOpen_of_takeTag htag hopens
    refine ⟨openMark ++ taken.inner ++ closeMark ++ raw ++ rawClose,
      ⟨_, hopening, by rw [String.toList_ofList]⟩, rfl, ?_, ?_⟩
    · rw [hbody, eq_append_of_takeRaw? hraw]
      simp only [List.append_assoc]
    · simp only [lineFeeds_append, lineFeeds_openMark, lineFeeds_closeMark, lineFeeds_rawClose]
      omega

/-- The tokens of a text have lexemes, by the rules of the scanner: the text in front of a tag, the
tag, which brings the closing tag of a raw block with it, and the rest. -/
theorem exists_lexemes_of_scanFrom (line : Nat) (text : List Char) :
    ∀ tokens, scanFrom line text = .ok tokens → ∃ lexemes, Lexemes line text tokens lexemes := by
  intro tokens h
  have hscans := scans_iff.1 h
  clear h
  induction hscans with
  | @text line text hsplit =>
    have hfront := not_isInfix_of_splitAtMark?_eq_none hsplit
    simpa using Lexemes.textToken hfront (by simp) (.nil (line + lineFeeds text))
  | @item line feeds text front body rest kind tokens hsplit htakes hrest ih =>
    obtain ⟨lexemes, hlexemes⟩ := ih
    have hfront := not_isInfix_of_splitAtMark? (by simp [openMark]) hsplit
    obtain ⟨lexeme, hlexeme, hnoText, hbody, hlines⟩ :=
      htakes.exists_lexeme (line + lineFeeds front)
    rw [← hlines] at hlexemes
    rw [eq_append_of_splitAtMark? hsplit, List.append_assoc, hbody]
    exact Lexemes.textToken hfront (by simp [hnoText]) (.cons hlexeme (by simp [hnoText]) hlexemes)

/-- The tokens of a template cover it: its text is a sequence of parts, none of them empty, one for
each token and in their order. No text is next to another one, and the line of a token is one more
than the number of line feeds in the parts in front of it. -/
theorem scan_lexemes {source : String} {tokens : List Token} (h : scan source = .ok tokens) :
    ∃ lexemes : List (List Char), lexemes.flatten = source.toList ∧
      List.Forall₂ IsLexeme tokens lexemes ∧ (∀ lexeme ∈ lexemes, lexeme ≠ []) ∧
      (tokens.IsChain fun a b => ¬ (a.isText ∧ b.isText)) ∧
      ∀ i token, tokens[i]? = some token →
        token.line = 1 + lineFeeds (lexemes.take i).flatten := by
  obtain ⟨lexemes, hlexemes⟩ := exists_lexemes_of_scanFrom 1 source.toList tokens h
  refine ⟨lexemes, hlexemes.flatten, hlexemes.isLexeme, fun lexeme hmem => ?_, hlexemes.apart,
    hlexemes.lines⟩
  obtain ⟨i, hi, rfl⟩ := List.getElem_of_mem hmem
  exact (hlexemes.isLexeme.get (hlexemes.isLexeme.length_eq ▸ hi) hi).ne_nil

/-- A comment of two lines and a raw block of two lines, with texts around them. -/
theorem scan_lexemes_raw :
    let source := "a\x7b\x7b!b\n\x7d\x7dc\x7b\x7b#raw\x7d\x7d\n\x7b\x7b/raw\x7d\x7dd"
    let tokens : List Token :=
      [⟨.text "a", 1⟩, ⟨.comment "b", 1⟩, ⟨.text "c", 2⟩, ⟨.raw "\n", 2⟩, ⟨.text "d", 3⟩]
    scan source = .ok tokens ∧
      ∃ lexemes : List (List Char), lexemes.flatten = source.toList ∧
        List.Forall₂ IsLexeme tokens lexemes ∧ (∀ lexeme ∈ lexemes, lexeme ≠ []) ∧
        (tokens.IsChain fun a b => ¬ (a.isText ∧ b.isText)) ∧
        ∀ i token, tokens[i]? = some token →
          token.line = 1 + lineFeeds (lexemes.take i).flatten := by
  intro source tokens
  have hscan : scan source = .ok tokens := toOption_eq_some.1 (by decide +kernel)
  exact ⟨hscan, scan_lexemes hscan⟩

end Token

end Stencil
