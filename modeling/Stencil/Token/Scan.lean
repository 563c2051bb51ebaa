import Stencil.Error
import Stencil.Token

/-!
# From text to tokens

## Main definitions

* `Token.breakAtClose` - finds the end of a tag, passing over quoted spans
* `Token.words?` - splits the content of a tag into words
* `Tag.read` - the tag that a text writes
* `Token.takeTag` - a tag in front of a text
* `Token.takeRaw?` - the content of a raw block
* `Token.scan` - the tokens of a template

## Design notes

Three quotation marks protect what stands between them: the apostrophe, the double quotation
mark and the backtick. Within a tag neither the closing braces nor blanks count there.
Comments and raw blocks know no quotation marks.
-/

namespace Stencil

open Text

namespace Token

/-- The quotation marks of tags. -/
def isQuote (c : Char) : Bool :=
  c = '\x27' || c = '\x22' || c = '\x60'

/-- The quotation mark that is open behind a character, given the one that is open in front
of it. -/
def quoteAfter (quote : Option Char) (c : Char) : Option Char :=
  match quote with
  | some q => if c = q then none else some q
  | none => if isQuote c then some c else none

/-- The text in front of the first `mark` outside of quoted spans, and the text behind
it. -/
def breakAtClose (mark : List Char) (quote : Option Char) :
    List Char → Option (List Char × List Char)
  | [] => none
  | c :: text =>
    let found := if quote = none ∧ !isQuote c then dropMark? mark (c :: text) else none
    match found with
    | some rest => some ([], rest)
    | none =>
      (breakAtClose mark (quoteAfter quote c) text).map fun (front, rest) => (c :: front, rest)

/-- The words of a text, where `word` is the word that has been read so far, in reverse, and
`quote` is the open quotation mark; `none` if it is not closed. Blanks outside of quoted
spans separate the words. -/
def wordsFrom? (word : List Char) (quote : Option Char) : List Char → Option (List (List Char))
  | [] =>
    if quote ≠ none then none
    else some (if word = [] then [] else [word.reverse])
  | c :: text =>
    if quote = none ∧ isBlank c then
      if word = [] then wordsFrom? [] none text
      else (wordsFrom? [] none text).map (word.reverse :: ·)
    else wordsFrom? (c :: word) (quoteAfter quote c) text

/-- The words of a text; `none` if a quotation mark is not closed. -/
def words? (text : List Char) : Option (List (List Char)) :=
  wordsFrom? [] none text

/-- The characters of the name of a named argument. -/
def isKeyChar (c : Char) : Bool :=
  isAlphanumeric c || c = '_' || c = '-'

/-- The name and the value of a word that is a named argument. -/
def hashPair? (word : List Char) : Option (List Char × List Char) :=
  match splitAtMark? ['='] word with
  | none => none
  | some (key, value) =>
    if key = [] ∨ value.head? = some '=' ∨ !key.all isKeyChar then none else some (key, value)

end Token

/-- The tag that a text writes: the first word is the name. -/
def Tag.read (line : Nat) (content : List Char) : Except Error Tag :=
  match Token.words? content with
  | none => .error (.parse line (.unterminatedQuote (String.ofList content)))
  | some [] => .error (.parse line .emptyTag)
  | some (name :: words) =>
    .ok
      { name := String.ofList name
        args := (words.filter fun word => (Token.hashPair? word).isNone).map String.ofList
        hash := (words.filterMap Token.hashPair?).map fun (key, value) =>
          (String.ofList key, String.ofList value) }

namespace Token

/-- The kind of a tag with two braces, by the first character of its content. -/
def readKind (line : Nat) (content : List Char) : Except Error TokenKind :=
  match content with
  | '#' :: rest => (Tag.read line (trim rest)).map .opening
  | '/' :: rest =>
    if trim rest = [] then .error (.parse line .namelessClose)
    else .ok (.closing (String.ofList (trim rest)))
  | '>' :: rest => (Tag.read line (trim rest)).map .partialTag
  | '&' :: rest => (Tag.read line (trim rest)).map (.output · false)
  | _ => (Tag.read line content).map (.output · true)

/-- What a tag reader takes off a text: the kind of the token, the text between its marks, and the
text behind it. -/
structure Taken where
  kind : TokenKind
  inner : List Char
  rest : List Char

/-- A comment, given its content and the text behind it. -/
def takeComment (line : Nat) : Option (List Char × List Char) → Except Error Taken
  | none => .error (.parse line .unterminatedTag)
  | some (inner, rest) => .ok ⟨.comment (String.ofList (trim inner)), inner, rest⟩

/-- A tag in front of a text, given the text behind its two opening braces. -/
def takeTag (line : Nat) (text : List Char) : Except Error Taken :=
  match text with
  | '\x7b' :: body =>
    match breakAtClose tripleMark none body with
    | none => .error (.parse line .unterminatedTag)
    | some (inner, rest) => do
      let tag ← Tag.read line (trim inner)
      return ⟨.output tag false, inner, rest⟩
  | '!' :: '-' :: '-' :: body => takeComment line (splitAtMark? commentMark body)
  | '!' :: body => takeComment line (splitAtMark? closeMark body)
  | _ =>
    match breakAtClose closeMark none text with
    | none => .error (.parse line .unterminatedTag)
    | some (inner, rest) => do
      let kind ← readKind line (trim inner)
      return ⟨kind, inner, rest⟩

/-- The content of a raw block, given the text behind its opening tag and the number of raw
blocks that are open inside of it, and the text behind its closing tag. -/
def takeRaw? : (depth : Nat) → List Char → Option (List Char × List Char)
  | _, [] => none
  | depth, c :: text =>
    let next (depth : Nat) := (takeRaw? depth text).map fun (body, rest) => (c :: body, rest)
    if (dropMark? rawOpen (c :: text)).isSome then next (depth + 1)
    else
      match dropMark? rawClose (c :: text), depth with
      | some rest, 0 => some ([], rest)
      | some _, depth + 1 => next depth
      | none, depth => next depth

/-! ### What the readers take -/

/-- The text of a tag, its closing mark and what follows are the whole text. -/
theorem eq_append_of_breakAtClose {mark text front rest : List Char} {quote : Option Char}
    (h : breakAtClose mark quote text = some (front, rest)) : text = front ++ mark ++ rest := by
  induction text generalizing quote front with
  | nil => simp [breakAtClose] at h
  | cons c text ih =>
    simp only [breakAtClose] at h
    split at h
    · next hfound =>
      obtain ⟨rfl, rfl⟩ : [] = front ∧ _ = rest := by simpa using h
      split at hfound
      · exact dropMark?_eq_some.1 hfound
      · simp at hfound
    · simp only [Option.map_eq_some_iff, Prod.exists, Prod.mk.injEq] at h
      obtain ⟨inner, _, hbreak, rfl, rfl⟩ := h
      rw [ih hbreak, List.cons_append, List.cons_append]

/-- The content of a raw block, its closing tag and what follows are the whole text. -/
theorem eq_append_of_takeRaw? {text body rest : List Char} {depth : Nat}
    (h : takeRaw? depth text = some (body, rest)) : text = body ++ rawClose ++ rest := by
  induction text generalizing depth body with
  | nil => simp [takeRaw?] at h
  | cons c text ih =>
    have step {depth : Nat} {body : List Char}
        (h : (takeRaw? depth text).map (fun (body, rest) => (c :: body, rest)) =
          some (body, rest)) : c :: text = body ++ rawClose ++ rest := by
      simp only [Option.map_eq_some_iff, Prod.exists, Prod.mk.injEq] at h
      obtain ⟨inner, _, hraw, rfl, rfl⟩ := h
      rw [ih hraw, List.cons_append, List.cons_append]
    simp only [takeRaw?] at h
    split at h
    · exact step h
    · split at h
      · next hdrop =>
        obtain ⟨rfl, rfl⟩ : [] = body ∧ _ = rest := by simpa using h
        exact dropMark?_eq_some.1 hdrop
      · exact step h
      · exact step h

theorem eq_of_takeComment {line : Nat} {split : Option (List Char × List Char)} {taken : Taken}
    (h : takeComment line split = .ok taken) :
    split = some (taken.inner, taken.rest) ∧
      taken.kind = .comment (String.ofList (trim taken.inner)) := by
  cases split with
  | none => simp [takeComment] at h
  | some parts =>
    obtain rfl := Except.ok.inj h
    exact ⟨rfl, rfl⟩

/-- The four ways in which a tag is taken: with three braces, as a comment with hyphens, as
a comment without, and with two braces. -/
theorem cases_of_takeTag {line : Nat} {text : List Char} {taken : Taken}
    (h : takeTag line text = .ok taken) :
    (∃ body tag, text = '\x7b' :: body ∧
      breakAtClose tripleMark none body = some (taken.inner, taken.rest) ∧
      Tag.read line (trim taken.inner) = .ok tag ∧ taken.kind = .output tag false) ∨
    (∃ body, text = '!' :: '-' :: '-' :: body ∧
      splitAtMark? commentMark body = some (taken.inner, taken.rest) ∧
      taken.kind = .comment (String.ofList (trim taken.inner))) ∨
    (∃ body, text = '!' :: body ∧
      splitAtMark? closeMark body = some (taken.inner, taken.rest) ∧
      taken.kind = .comment (String.ofList (trim taken.inner))) ∨
    (breakAtClose closeMark none text = some (taken.inner, taken.rest) ∧
      readKind line (trim taken.inner) = .ok taken.kind) := by
  unfold takeTag at h
  split at h
  · next body =>
    cases hbreak : breakAtClose tripleMark none body with
    | none => simp [hbreak] at h
    | some parts =>
      simp only [hbreak, bind_eq_ok] at h
      obtain ⟨tag, htag, h⟩ := h
      obtain rfl := Except.ok.inj h
      exact .inl ⟨body, tag, rfl, hbreak, htag, rfl⟩
  · next body =>
    obtain ⟨hsplit, hkind⟩ := eq_of_takeComment h
    exact .inr (.inl ⟨body, rfl, hsplit, hkind⟩)
  · next body _ =>
    obtain ⟨hsplit, hkind⟩ := eq_of_takeComment h
    exact .inr (.inr (.inl ⟨body, rfl, hsplit, hkind⟩))
  · cases hbreak : breakAtClose closeMark none text with
    | none => simp [hbreak] at h
    | some parts =>
      simp only [hbreak, bind_eq_ok] at h
      obtain ⟨kind, hkind, h⟩ := h
      obtain rfl := Except.ok.inj h
      exact .inr (.inr (.inr ⟨rfl, hkind⟩))

/-- A tag ends with two closing braces, and its lines are those of the text between its marks. -/
theorem exists_append_of_takeTag {line : Nat} {text : List Char} {taken : Taken}
    (h : takeTag line text = .ok taken) :
    ∃ front, text = front ++ closeMark ++ taken.rest ∧
      lineFeeds (front ++ closeMark) = lineFeeds taken.inner := by
  rcases cases_of_takeTag h with ⟨body, tag, rfl, hbreak, -⟩ | ⟨body, rfl, hsplit, -⟩ |
    ⟨body, rfl, hsplit, -⟩ | ⟨hbreak, -⟩
  · exact ⟨'\x7b' :: taken.inner ++ ['\x7d'],
      by simp [eq_append_of_breakAtClose hbreak, tripleMark, closeMark],
      by simp [lineFeeds, closeMark]⟩
  · exact ⟨'!' :: '-' :: '-' :: taken.inner ++ ['-', '-'],
      by simp [eq_append_of_splitAtMark? hsplit, commentMark, closeMark],
      by simp [lineFeeds, closeMark]⟩
  · exact ⟨'!' :: taken.inner, by simp [eq_append_of_splitAtMark? hsplit],
      by simp [lineFeeds, closeMark]⟩
  · exact ⟨taken.inner, eq_append_of_breakAtClose hbreak, by simp [lineFeeds, closeMark]⟩

/-- The token of a text, unless it is empty. -/
def textToken (line : Nat) (text : List Char) : List Token :=
  if text = [] then [] else [⟨.text (String.ofList text), line⟩]

/-- Whether a token opens a raw block. -/
def opensRaw : TokenKind → Bool
  | .opening tag => tag.name = String.ofList rawName
  | _ => false

/-- The tokens of a text that starts on the given line. -/
def scanFrom (line : Nat) (text : List Char) : Except Error (List Token) :=
  match _hsplit : splitAtMark? openMark text with
  | none => .ok (textToken line text)
  | some (front, body) =>
    let tagLine := line + lineFeeds front
    match _htag : takeTag tagLine body with
    | .error e => .error e
    | .ok taken =>
      let line' := tagLine + lineFeeds taken.inner
      if opensRaw taken.kind then
        match _hraw : takeRaw? 0 taken.rest with
        | none => .error (.parse tagLine .unclosedRaw)
        | some (raw, rest) => do
          let tokens ← scanFrom (line' + lineFeeds raw) rest
          return textToken line front ++ ⟨.raw (String.ofList raw), tagLine⟩ :: tokens
      else do
        let tokens ← scanFrom line' taken.rest
        return textToken line front ++ ⟨taken.kind, tagLine⟩ :: tokens
termination_by text.length
decreasing_by
  · obtain ⟨tag, htag, -⟩ := exists_append_of_takeTag _htag
    have hsplit := congrArg List.length (eq_append_of_splitAtMark? _hsplit)
    have hraw := congrArg List.length (eq_append_of_takeRaw? _hraw)
    simp only [htag, List.length_append, closeMark, List.length_cons] at hsplit hraw
    omega
  · obtain ⟨tag, htag, -⟩ := exists_append_of_takeTag _htag
    have hsplit := congrArg List.length (eq_append_of_splitAtMark? _hsplit)
    simp only [htag, List.length_append, closeMark, List.length_cons] at hsplit
    omega

/-- The tokens of a template. -/
def scan (source : String) : Except Error (List Token) :=
  scanFrom 1 source.toList

end Token

end Stencil
