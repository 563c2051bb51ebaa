import Mathlib.Data.List.Forall2
import Stencil.Proofs.Token.Locality
import Stencil.Proofs.Token.Words

/-!
# Printed tokens are scanned back

A tag can be written in many ways: with blanks or line feeds between its words and around them, and
with its named arguments at any place among those by position. All these texts are scanned as the
same token, wherever they stand.

## Main definitions

* `Token.IsNested` - a content of a raw block
* `Tag.Printable`, `TokenKind.Printable` - tokens that have a text
* `Tag.Items`, `Tag.Prints`, `TokenKind.Prints` - the texts of a token
* `TokenKind.MayPrecede` - tokens that can stand next to each other

Main statement: `Token.scan_printed`.
-/

namespace Stencil

open Text

/-! ### Texts for tokens -/

namespace Token

/-- A text in which each mark that opens a raw block has one that closes it, and the other way
round. -/
inductive IsNested : List Char → Prop where
  | nil : IsNested []
  | char {c : Char} {text : List Char} (hopen : ¬ rawOpen <+: c :: text)
      (hclose : ¬ rawClose <+: c :: text) (hrest : IsNested text) : IsNested (c :: text)
  | block {inner text : List Char} (hinner : IsNested inner) (hrest : IsNested text) :
      IsNested (rawOpen ++ inner ++ rawClose ++ text)

/-- A text with blanks around it. It does not end with a closing brace, which would be read as
a part of the closing mark. -/
inductive Padded (body : List Char) : List Char → Prop where
  | mk {lead trail : List Char} (hlead : IsGap lead) (htrail : IsGap trail)
      (hlast : (lead ++ body ++ trail).getLast? ≠ some '\x7d') : Padded body (lead ++ body ++ trail)

end Token

open Token

/-- A tag that can be printed: its words are words, none of its arguments by position has the form
of a named one, and its named arguments have that form. -/
structure Tag.Printable (tag : Tag) : Prop where
  name : IsWord tag.name.toList
  args : ∀ arg ∈ tag.args, IsWord arg.toList ∧ hashPair? arg.toList = none
  hash : ∀ entry ∈ tag.hash, entry.1 ≠ "" ∧ entry.1.toList.all isKeyChar ∧
    entry.2.toList.head? ≠ some '=' ∧ IsWord (entry.1.toList ++ '=' :: entry.2.toList)

/-- A token that can be printed. -/
def TokenKind.Printable : TokenKind → Prop
  | .text body => body ≠ "" ∧ ¬ openMark <:+: body.toList
  | .comment body => trim body.toList = body.toList ∧ ¬ commentMark <:+: body.toList
  | .output tag escaped =>
    tag.Printable ∧ (escaped → ∀ c ∈ tag.name.toList.head?, c ∉ ['#', '/', '>', '&'])
  | .opening tag => tag.Printable ∧ tag.name.toList ≠ rawName
  | .closing name => name ≠ "" ∧ trim name.toList = name.toList ∧ IsQuoted name.toList
  | .partialTag tag => tag.Printable
  | .raw body => IsNested body.toList

/-- The words behind the name of a tag: its arguments by position and those by name, each of the two
in their order. -/
inductive Tag.Items : List String → List (String × String) → List (List Char) → Prop where
  | nil : Items [] [] []
  | arg {args : List String} {hash : List (String × String)} {words : List (List Char)}
      (arg : String) (h : Items args hash words) : Items (arg :: args) hash (arg.toList :: words)
  | named {args : List String} {hash : List (String × String)} {words : List (List Char)}
      (key value : String) (h : Items args hash words) :
      Items args ((key, value) :: hash) ((key.toList ++ '=' :: value.toList) :: words)

/-- The texts of a tag: its name, and its arguments behind gaps. -/
def Tag.Prints (tag : Tag) (text : List Char) : Prop :=
  ∃ words items, Tag.Items tag.args tag.hash words ∧ Spaced words items ∧
    text = tag.name.toList ++ items

/-- The texts of a token. Behind the mark of an escaped output there is a blank, or a character that
does not make another mark of it. -/
inductive TokenKind.Prints : TokenKind → List Char → Prop where
  | text (body : String) : Prints (.text body) body.toList
  | comment (body : String) {lead trail : List Char} (hlead : IsGap lead) (htrail : IsGap trail) :
      Prints (.comment body)
        (openMark ++ (['!', '-', '-'] ++ (lead ++ body.toList ++ trail) ++ commentMark))
  | escaped {tag : Tag} {content inner : List Char} (hcontent : tag.Prints content)
      (hinner : Padded content inner) (hhead : ∀ c ∈ inner.head?, c ≠ '\x7b' ∧ c ≠ '!') :
      Prints (.output tag true) (openMark ++ (inner ++ closeMark))
  | ampersand {tag : Tag} {content inner : List Char} (hcontent : tag.Prints content)
      (hinner : Padded content inner) :
      Prints (.output tag false) (openMark ++ ('&' :: inner ++ closeMark))
  | triple {tag : Tag} {content inner : List Char} (hcontent : tag.Prints content)
      (hinner : Padded content inner) :
      Prints (.output tag false) (openMark ++ ('\x7b' :: inner ++ tripleMark))
  | opening {tag : Tag} {content inner : List Char} (hcontent : tag.Prints content)
      (hinner : Padded content inner) :
      Prints (.opening tag) (openMark ++ ('#' :: inner ++ closeMark))
  | partialTag {tag : Tag} {content inner : List Char} (hcontent : tag.Prints content)
      (hinner : Padded content inner) :
      Prints (.partialTag tag) (openMark ++ ('>' :: inner ++ closeMark))
  | closing {name : String} {inner : List Char} (hinner : Padded name.toList inner) :
      Prints (.closing name) (openMark ++ ('/' :: inner ++ closeMark))
  | raw (body : String) : Prints (.raw body) (rawOpen ++ body.toList ++ rawClose)

/-- Texts are not next to each other, and a text in front of another token does not end with an
opening brace. -/
def TokenKind.MayPrecede (kind next : TokenKind) : Prop :=
  ∀ body, kind = .text body →
    (∀ other, next ≠ .text other) ∧ body.toList.getLast? ≠ some '\x7b'

variable {tag : Tag} {kind : TokenKind} {line : Nat} {text body content inner : List Char}
  {words : List (List Char)}

/-! ### A text for each token -/

theorem intercalate_blank (word : List Char) (words : List (List Char)) :
    [' '].intercalate (word :: words) = word ++ words.flatMap (' ' :: ·) := by
  induction words generalizing word with
  | nil => simp [List.intercalate]
  | cons next words ih =>
    rw [List.intercalate, List.intersperse_cons_cons, List.flatten_cons, List.flatten_cons]
    exact congrArg (word ++ ' ' :: ·) (ih next)

theorem Tag.items_words (args : List String) (hash : List (String × String)) :
    Tag.Items args hash (args.map String.toList ++
      hash.map fun (key, value) => key.toList ++ '=' :: value.toList) := by
  induction args with
  | nil =>
    induction hash with
    | nil => exact .nil
    | cons entry hash ih => exact .named entry.1 entry.2 ih
  | cons arg args ih => exact .arg arg ih

theorem Token.spaced_blank (words : List (List Char)) :
    Spaced words (words.flatMap (' ' :: ·)) := by
  induction words with
  | nil => exact .nil
  | cons word words ih => exact @Spaced.cons [' '] word _ words (by decide) (by simp) ih

theorem Tag.prints_print (tag : Tag) : tag.Prints tag.print :=
  ⟨_, _, Tag.items_words tag.args tag.hash, Token.spaced_blank _, intercalate_blank _ _⟩

theorem Token.padded_pad (text : List Char) : Padded text (pad text) :=
  .mk (by decide) (by decide) (by rw [List.getLast?_concat]; decide)

/-- `TokenKind.print` gives one of the texts of a token. -/
theorem TokenKind.prints_print (kind : TokenKind) : kind.Prints kind.print := by
  cases kind with
  | text body => exact .text body
  | comment body => exact @Prints.comment body [' '] [' '] (by decide) (by decide)
  | output tag escaped =>
    cases escaped with
    | true => exact .escaped tag.prints_print (padded_pad _) (by simp [pad])
    | false => exact .ampersand tag.prints_print (padded_pad _)
  | opening tag => exact .opening tag.prints_print (padded_pad _)
  | closing name => exact .closing (padded_pad _)
  | partialTag tag => exact .partialTag tag.prints_print (padded_pad _)
  | raw body => exact .raw body

/-! ### The words of printed tags -/

theorem Token.hashPair?_append {key value : List Char} (hkey : key ≠ [])
    (hchars : key.all isKeyChar) (hvalue : value.head? ≠ some '=') :
    hashPair? (key ++ '=' :: value) = some (key, value) := by
  have hsplit : splitAtMark? ['='] (key ++ '=' :: value) = some (key, value) := by
    refine (splitAtMark?_eq_some_iff (by simp)).2 ⟨by simp, fun hinfix => ?_⟩
    have hmem : '=' ∈ key := by simpa using hinfix.subset (List.mem_singleton.2 rfl)
    exact absurd (List.all_eq_true.1 hchars _ hmem) (by decide +kernel)
  rw [hashPair?, hsplit]
  exact if_neg (by simp [hkey, hvalue, hchars])

namespace Tag

theorem Items.isWord {args : List String} {hash : List (String × String)}
    (h : Items args hash words) (hargs : ∀ arg ∈ args, IsWord arg.toList)
    (hhash : ∀ entry ∈ hash, IsWord (entry.1.toList ++ '=' :: entry.2.toList)) :
    ∀ word ∈ words, IsWord word := by
  induction h with
  | nil => simp
  | arg arg h ih =>
    obtain ⟨harg, hargs⟩ := List.forall_mem_cons.1 hargs
    exact List.forall_mem_cons.2 ⟨harg, ih hargs hhash⟩
  | named key value h ih =>
    obtain ⟨hentry, hhash⟩ := List.forall_mem_cons.1 hhash
    exact List.forall_mem_cons.2 ⟨hentry, ih hargs hhash⟩

/-- Each word is told apart by its form. -/
theorem Items.read {args : List String} {hash : List (String × String)}
    (h : Items args hash words) (hargs : ∀ arg ∈ args, hashPair? arg.toList = none)
    (hhash : ∀ entry ∈ hash, hashPair? (entry.1.toList ++ '=' :: entry.2.toList) =
      some (entry.1.toList, entry.2.toList)) :
    (words.filter fun word => (hashPair? word).isNone).map String.ofList = args ∧
      ((words.filterMap hashPair?).map fun (key, value) =>
        (String.ofList key, String.ofList value)) = hash := by
  induction h with
  | nil => exact ⟨rfl, rfl⟩
  | arg arg h ih =>
    obtain ⟨harg, hargs⟩ := List.forall_mem_cons.1 hargs
    obtain ⟨ihargs, ihhash⟩ := ih hargs hhash
    simp [harg, ihargs, ihhash]
  | named key value h ih =>
    obtain ⟨hentry, hhash⟩ := List.forall_mem_cons.1 hhash
    obtain ⟨ihargs, ihhash⟩ := ih hargs hhash
    simp [hentry, ihargs, ihhash]

theorem Printable.isWord (htag : tag.Printable) (h : Items tag.args tag.hash words) :
    ∀ word ∈ words, IsWord word :=
  h.isWord (fun arg harg => (htag.args arg harg).1) fun entry hentry =>
    (htag.hash entry hentry).2.2.2

/-- What is read of a text of a tag is the tag. -/
theorem Prints.read (h : tag.Prints content) (htag : tag.Printable) (line : Nat) :
    Tag.read line content = .ok tag := by
  obtain ⟨words, items, hitems, hspaced, rfl⟩ := h
  have hhash : ∀ entry ∈ tag.hash, hashPair? (entry.1.toList ++ '=' :: entry.2.toList) =
      some (entry.1.toList, entry.2.toList) := by
    intro entry hentry
    obtain ⟨hkey, hchars, hvalue, -⟩ := htag.hash entry hentry
    exact hashPair?_append (by simpa using hkey) hchars hvalue
  obtain ⟨hargs, hpairs⟩ := hitems.read (fun arg harg => (htag.args arg harg).2) hhash
  rw [Tag.read, words?_of_spaced htag.name (htag.isWord hitems) hspaced]
  simp only [hargs, hpairs, String.ofList_toList]

theorem Prints.isQuoted (h : tag.Prints content) (htag : tag.Printable) : IsQuoted content := by
  obtain ⟨words, items, hitems, hspaced, rfl⟩ := h
  exact isQuoted_row htag.name (htag.isWord hitems) hspaced

theorem Prints.trim (h : tag.Prints content) (htag : tag.Printable) :
    Text.trim content = content := by
  obtain ⟨words, items, hitems, hspaced, rfl⟩ := h
  exact trim_row htag.name (htag.isWord hitems) hspaced

theorem Prints.ne_nil (h : tag.Prints content) (htag : tag.Printable) : content ≠ [] := by
  obtain ⟨words, items, -, -, rfl⟩ := h
  exact List.append_ne_nil_of_left_ne_nil htag.name.ne_nil items

/-- The first character of a text of a tag is that of its name. -/
theorem Prints.head (h : tag.Prints content) (htag : tag.Printable) :
    content.head? = tag.name.toList.head? := by
  obtain ⟨words, items, hitems, hspaced, rfl⟩ := h
  exact List.head?_append_of_ne_nil _ htag.name.ne_nil

end Tag

/-! ### Tags -/

namespace Token

theorem Padded.isQuoted (h : Padded body inner) (hbody : IsQuoted body) : IsQuoted inner := by
  obtain ⟨hlead, htrail, -⟩ := h
  refine (hlead.isQuoted.append hbody fun hlast => ?_).append htrail.isQuoted fun _ hhead => ?_
  · exact absurd rfl (ne_of_isBlank (hlead _ (List.mem_of_getLast? hlast)) (by decide))
  · exact absurd rfl (ne_of_isBlank (htrail _ (List.mem_of_head? hhead)) (by decide))

theorem Padded.trim (h : Padded body inner) : Text.trim inner = Text.trim body := by
  obtain ⟨hlead, htrail, -⟩ := h
  exact trim_append hlead htrail body

theorem Padded.ne_nil (h : Padded body inner) (hbody : body ≠ []) : inner ≠ [] := by
  obtain ⟨-, -, -⟩ := h
  simp [hbody]

theorem Padded.last (h : Padded body inner) : inner.getLast? ≠ some '\x7d' := by
  obtain ⟨-, -, hlast⟩ := h
  exact hlast

/-- A tag with two braces is read by the text between its marks. -/
theorem takeTag_of_isQuoted (hhead : ∀ c ∈ inner.head?, c ≠ '\x7b' ∧ c ≠ '!')
    (hinner : IsQuoted inner) (hlast : inner.getLast? ≠ some '\x7d') (hne : inner ≠ []) :
    takeTag line (inner ++ closeMark) =
      (readKind line (trim inner)).map fun kind => ⟨kind, inner, []⟩ := by
  have hbreak := breakAtClose_of_isQuoted (List.prefix_refl closeMark) hinner hlast []
  rw [List.append_nil] at hbreak
  have hfront : (inner ++ closeMark).head? = inner.head? := List.head?_append_of_ne_nil _ hne
  refine takeTag_plain ?_ ?_ hbreak
  · rw [hfront]
    exact fun h => (hhead _ h).1 rfl
  · rw [hfront]
    exact fun h => (hhead _ h).2 rfl

/-- A tag whose kind stands in front of its content: blanks around the content do not count. -/
theorem takeTag_sigil (c : Char) (hc : c ∈ ['#', '/', '>', '&']) (hpadded : Padded body inner)
    (hbody : IsQuoted body) :
    ∃ rest, trim rest = trim body ∧ takeTag line (c :: inner ++ closeMark) =
      (readKind line (c :: rest)).map fun kind => ⟨kind, c :: inner, []⟩ := by
  obtain ⟨hquote, hblank, hclose, hopen, hmark⟩ :
      isQuote c = false ∧ ¬ isBlank c ∧ c ≠ '\x7d' ∧ c ≠ '\x7b' ∧ c ≠ '!' := by
    simp only [List.mem_cons, List.not_mem_nil, or_false] at hc
    rcases hc with rfl | rfl | rfl | rfl <;> decide
  obtain ⟨rest, htrim, hrest⟩ := exists_trim_cons hblank inner
  refine ⟨rest, hrest.trans hpadded.trim, ?_⟩
  rw [← htrim]
  refine takeTag_of_isQuoted (by simp [hopen, hmark]) ?_ ?_ (List.cons_ne_nil c inner)
  · exact (isQuoted_singleton hquote).append (hpadded.isQuoted hbody) fun hlast =>
      absurd (Option.some.inj hlast) hclose
  · cases inner with
    | nil => simpa using hclose
    | cons d inner => exact hpadded.last

theorem takeTag_ofTag (line : Nat) (c : Char) (hc : c ∈ ['#', '/', '>', '&'])
    {make : Tag → TokenKind}
    (hmake : ∀ rest, readKind line (c :: rest) = (Tag.read line (trim rest)).map make)
    (hcontent : tag.Prints content) (htag : tag.Printable) (hinner : Padded content inner) :
    takeTag line (c :: inner ++ closeMark) = .ok ⟨make tag, c :: inner, []⟩ := by
  obtain ⟨rest, hrest, htake⟩ := takeTag_sigil c hc hinner (hcontent.isQuoted htag)
  rw [htake, hmake, hrest, hcontent.trim htag, hcontent.read htag]
  rfl

theorem takeTag_closing {name : List Char} (hne : name ≠ []) (htrim : trim name = name)
    (hname : IsQuoted name) (hinner : Padded name inner) :
    takeTag line ('/' :: inner ++ closeMark) =
      .ok ⟨.closing (String.ofList name), '/' :: inner, []⟩ := by
  obtain ⟨rest, hrest, htake⟩ := takeTag_sigil '/' (by decide) hinner hname
  rw [htake, readKind, hrest, htrim, if_neg hne]
  rfl

theorem takeTag_escaped (hcontent : tag.Prints content) (htag : tag.Printable)
    (hname : ∀ c ∈ tag.name.toList.head?, c ∉ ['#', '/', '>', '&'])
    (hinner : Padded content inner) (hhead : ∀ c ∈ inner.head?, c ≠ '\x7b' ∧ c ≠ '!') :
    takeTag line (inner ++ closeMark) = .ok ⟨.output tag true, inner, []⟩ := by
  have hne : inner ≠ [] := hinner.ne_nil (hcontent.ne_nil htag)
  rw [takeTag_of_isQuoted hhead (hinner.isQuoted (hcontent.isQuoted htag)) hinner.last hne,
    hinner.trim, hcontent.trim htag]
  have hkind : readKind line content = (Tag.read line content).map (.output · true) := by
    have hhead := hcontent.head htag
    unfold readKind
    split
    · exact absurd (by simp) (hname _ hhead.symm)
    · exact absurd (by simp) (hname _ hhead.symm)
    · exact absurd (by simp) (hname _ hhead.symm)
    · exact absurd (by simp) (hname _ hhead.symm)
    · rfl
  rw [hkind, hcontent.read htag]
  rfl

theorem takeTag_triple (hcontent : tag.Prints content) (htag : tag.Printable)
    (hinner : Padded content inner) :
    takeTag line ('\x7b' :: inner ++ tripleMark) = .ok ⟨.output tag false, inner, []⟩ := by
  have hbreak := breakAtClose_of_isQuoted (show closeMark <+: tripleMark by decide)
    (hinner.isQuoted (hcontent.isQuoted htag)) hinner.last []
  rw [List.append_nil] at hbreak
  rw [List.cons_append, takeTag, hbreak]
  simp only [hinner.trim, hcontent.trim htag, hcontent.read htag]
  rfl

/-! ### Comments -/

/-- A mark that begins with no blank begins behind a gap. -/
theorem isInfix_of_gap_append {gap mark : List Char} (hgap : IsGap gap)
    (hmark : ∃ c ∈ mark.head?, ¬ isBlank c) (h : mark <:+: gap ++ text) : mark <:+: text := by
  obtain ⟨c, hc, hblank⟩ := hmark
  obtain ⟨mark, rfl⟩ := List.head?_eq_some_iff.1 hc
  induction gap with
  | nil => exact h
  | cons b gap ih =>
    obtain ⟨hb, hgap⟩ := hgap.tail
    rw [List.cons_append, List.infix_cons_iff] at h
    rcases h with hprefix | hinfix
    · exact absurd ((List.cons_prefix_cons.1 hprefix).1 ▸ hb) hblank
    · exact ih hgap hinfix

theorem getLast?_of_isSuffix {mark : List Char} {c : Char} (hmark : mark ≠ [])
    (h : mark <:+ text ++ [c]) : mark.getLast? = some c := by
  obtain ⟨front, hfront⟩ := h
  rw [← List.getLast?_append_of_ne_nil front hmark, hfront, List.getLast?_concat]

/-- A mark that ends with no blank ends in front of a gap. -/
theorem isInfix_of_append_gap {gap mark : List Char} (hgap : IsGap gap)
    (hmark : ∃ c ∈ mark.getLast?, ¬ isBlank c) (h : mark <:+: text ++ gap) : mark <:+: text := by
  obtain ⟨c, hc, hblank⟩ := hmark
  have hne : mark ≠ [] := by
    rintro rfl
    cases hc
  induction gap using List.reverseRecOn with
  | nil => simpa using h
  | append_singleton gap b ih =>
    rw [← List.append_assoc, List.infix_concat_iff] at h
    rcases h with hsuffix | hinfix
    · have hb : b = c := Option.some.inj ((getLast?_of_isSuffix hne hsuffix).symm.trans hc)
      exact absurd (hgap c (by simp [hb])) hblank
    · exact ih (fun c hc => hgap c (by simp [hc])) hinfix

/-- The closing mark of a comment does not begin in front of itself. -/
theorem not_commentMark_append (h : ¬ commentMark <:+: text) :
    ¬ commentMark <:+: text ++ commentMark.dropLast := by
  have hdrop : text ++ commentMark.dropLast = text ++ ['-'] ++ ['-'] ++ ['\x7d'] := by
    simp [commentMark]
  rw [hdrop, List.infix_concat_iff, List.infix_concat_iff, List.infix_concat_iff]
  rintro (hsuffix | hsuffix | hsuffix | hinfix)
  · have hshort : ['-', '-', '\x7d'] <:+ text ++ ['-'] ++ ['-'] := by
      obtain ⟨front, hfront⟩ := hsuffix
      refine ⟨front, ?_⟩
      have := congrArg List.dropLast hfront
      simpa [commentMark] using this
    simpa using getLast?_of_isSuffix (by simp) hshort
  · simpa [commentMark] using getLast?_of_isSuffix (by simp [commentMark]) hsuffix
  · simpa [commentMark] using getLast?_of_isSuffix (by simp [commentMark]) hsuffix
  · exact h hinfix

theorem takeTag_ofComment {text lead trail : List Char} (hlead : IsGap lead)
    (htrail : IsGap trail) (htrim : trim text = text) (hmark : ¬ commentMark <:+: text) :
    takeTag line (['!', '-', '-'] ++ (lead ++ text ++ trail) ++ commentMark) =
      .ok ⟨.comment (String.ofList text), lead ++ text ++ trail, []⟩ := by
  have hsplit : splitAtMark? commentMark (lead ++ text ++ trail ++ commentMark) =
      some (lead ++ text ++ trail, []) := by
    refine (splitAtMark?_eq_some_iff (by simp [commentMark])).2
      ⟨by rw [List.append_nil], not_commentMark_append fun hinfix => hmark ?_⟩
    refine isInfix_of_gap_append hlead ⟨'-', rfl, by decide⟩ ?_
    exact isInfix_of_append_gap htrail ⟨'\x7d', rfl, by decide⟩ hinfix
  simp only [List.cons_append, List.nil_append, takeTag]
  rw [hsplit, takeComment, trim_append hlead htrail, htrim]

/-! ### Raw blocks -/

/-- No part at the end of a mark of raw blocks begins a closing mark. -/
theorem apart_rawClose : ∀ mark ∈ [rawOpen, rawClose], ∀ n ∈ List.range 8, n ≠ 0 →
    ¬ mark.drop n <+: rawClose := by
  decide

/-- A mark that begins in front of a closing mark ends there. -/
theorem isPrefix_of_append_rawClose {mark behind : List Char} (hmark : mark ∈ [rawOpen, rawClose])
    (hne : text ≠ []) (h : mark <+: text ++ (rawClose ++ behind)) : mark <+: text := by
  have hlength : mark.length = 8 := by
    have : ∀ mark ∈ [rawOpen, rawClose], mark.length = 8 := by decide
    exact this mark hmark
  by_cases hlong : mark.length ≤ text.length
  · exact List.prefix_of_prefix_length_le h (List.prefix_append _ _) hlong
  · have hpos := List.length_pos_iff.2 hne
    obtain ⟨rest, hrest⟩ := h
    have hdrop : mark.drop text.length <+: rawClose ++ behind := by
      refine ⟨rest, ?_⟩
      have := congrArg (List.drop text.length) hrest
      rwa [List.drop_append_of_le_length (by omega), List.drop_left] at this
    refine absurd ?_
      (apart_rawClose mark hmark text.length (List.mem_range.2 (by omega)) (by omega))
    refine List.prefix_of_prefix_length_le hdrop (List.prefix_append _ _) ?_
    rw [List.length_drop, hlength]
    have : rawClose.length = 8 := rfl
    omega

theorem takeRaw?_char {c : Char} (hopen : ¬ rawOpen <+: c :: text)
    (hclose : ¬ rawClose <+: c :: text) (depth : Nat) :
    takeRaw? depth (c :: text) =
      (takeRaw? depth text).map fun (body, rest) => (c :: body, rest) := by
  rw [← dropMark?_eq_none] at hopen hclose
  simp [takeRaw?, hopen, hclose]

theorem takeRaw?_rawOpen (depth : Nat) (text : List Char) :
    takeRaw? depth (rawOpen ++ text) =
      (takeRaw? (depth + 1) text).map fun (body, rest) => (rawOpen ++ body, rest) := by
  simp [takeRaw?, dropMark?, rawOpen, rawClose, openMark, closeMark, rawName, Option.map_map,
    Function.comp_def]

theorem takeRaw?_rawClose (depth : Nat) (text : List Char) :
    takeRaw? (depth + 1) (rawClose ++ text) =
      (takeRaw? depth text).map fun (body, rest) => (rawClose ++ body, rest) := by
  simp [takeRaw?, dropMark?, rawOpen, rawClose, openMark, closeMark, rawName, Option.map_map,
    Function.comp_def]

/-- Behind a text with nested marks as many raw blocks are open as in front of it. -/
theorem takeRaw?_of_isNested (h : IsNested text) (depth : Nat) (behind : List Char) :
    takeRaw? depth (text ++ (rawClose ++ behind)) =
      (takeRaw? depth (rawClose ++ behind)).map fun (body, rest) => (text ++ body, rest) := by
  induction h generalizing depth behind with
  | nil => simp
  | @char c text hopen hclose hrest ih =>
    have hapart {mark : List Char} (hmark : mark ∈ [rawOpen, rawClose])
        (h : ¬ mark <+: c :: text) : ¬ mark <+: c :: (text ++ (rawClose ++ behind)) :=
      fun hprefix => h (isPrefix_of_append_rawClose hmark (List.cons_ne_nil c text) hprefix)
    rw [List.cons_append, takeRaw?_char (hapart (by simp) hopen) (hapart (by simp) hclose), ih,
      Option.map_map]
    rfl
  | @block inner text hinner hrest ihinner ih =>
    simp only [List.append_assoc]
    rw [takeRaw?_rawOpen, ihinner, takeRaw?_rawClose, ih]
    simp only [Option.map_map, Function.comp_def]

theorem takeRaw?_closed (h : IsNested text) :
    takeRaw? 0 (text ++ rawClose) = some (text, []) := by
  have hclose : takeRaw? 0 (rawClose ++ []) = some ([], []) := by decide
  have hraw := takeRaw?_of_isNested h 0 []
  rw [hclose, List.append_nil] at hraw
  simpa using hraw

/-! ### Tokens -/

/-- Behind the mark of a tag each text of a token other than a text is taken as that token. -/
theorem exists_takes_of_prints (hprints : kind.Prints text) (hkind : kind.Printable)
    (htext : ∀ body, kind ≠ .text body) (line : Nat) :
    ∃ body, text = openMark ++ body ∧ ∃ feeds, Takes line body kind feeds [] := by
  have htag {body inner : List Char} (htake : takeTag line body = .ok ⟨kind, inner, []⟩)
      (hopens : opensRaw kind = false) : ∃ feeds, Takes line body kind feeds [] :=
    ⟨_, @Takes.tag line body _ htake hopens⟩
  cases hprints with
  | text body => exact absurd rfl (htext body)
  | @comment body lead trail hlead htrail =>
    have htake := @takeTag_ofComment line _ _ _ hlead htrail hkind.1 hkind.2
    rw [String.ofList_toList] at htake
    exact ⟨_, rfl, htag htake rfl⟩
  | escaped hcontent hinner hhead =>
    exact ⟨_, rfl, htag (takeTag_escaped hcontent hkind.1 (hkind.2 rfl) hinner hhead) rfl⟩
  | triple hcontent hinner => exact ⟨_, rfl, htag (takeTag_triple hcontent hkind.1 hinner) rfl⟩
  | ampersand hcontent hinner =>
    have htake := takeTag_ofTag line '&' (by decide) (fun _ => rfl) hcontent hkind.1 hinner
    exact ⟨_, rfl, htag htake rfl⟩
  | @opening tag content inner hcontent hinner =>
    have htake := takeTag_ofTag line '#' (by decide) (fun _ => rfl) hcontent hkind.1 hinner
    refine ⟨_, rfl, htag htake (decide_eq_false fun hname => hkind.2 ?_)⟩
    rw [hname, String.toList_ofList]
  | partialTag hcontent hinner =>
    have htake := takeTag_ofTag line '>' (by decide) (fun _ => rfl) hcontent hkind hinner
    exact ⟨_, rfl, htag htake rfl⟩
  | @closing name inner hinner =>
    have htake := @takeTag_closing line _ _ (by simpa using hkind.1) hkind.2.1 hkind.2.2 hinner
    rw [String.ofList_toList] at htake
    exact ⟨_, rfl, htag htake rfl⟩
  | raw body =>
    have hopening : takeTag line (('#' :: rawName) ++ closeMark) =
        .ok ⟨.opening ⟨"raw", [], []⟩, '#' :: rawName, []⟩ := rfl
    have htake := takeTag_append hopening (body.toList ++ rawClose)
    have hraw := @Takes.raw line _ _ _ _ htake rfl (takeRaw?_closed hkind)
    rw [String.ofList_toList] at hraw
    exact ⟨('#' :: rawName) ++ closeMark ++ (body.toList ++ rawClose),
      by simp only [rawOpen, List.append_assoc], _, hraw⟩

/-! ### Rows of tokens -/

/-- What is said about the lines of a row, with another token in front. -/
theorem line_of_cons {tokens : List Token} {texts : List (List Char)}
    (h : ∀ i token, tokens[i]? = some token →
      token.line = line + lineFeeds text + lineFeeds (texts.take i).flatten) :
    ∀ i token, (⟨kind, line⟩ :: tokens)[i]? = some token →
      token.line = line + lineFeeds ((text :: texts).take i).flatten := by
  intro i token htoken
  cases i with
  | zero =>
    obtain rfl := Option.some.inj htoken
    rfl
  | succ i =>
    rw [h i token htoken, List.take_succ_cons, List.flatten_cons, lineFeeds_append, Nat.add_assoc]

/-- By induction on the row: a token that is no text begins with the mark of a tag, and a text goes
on until the mark of the next token. -/
theorem exists_scans_of_prints {kinds : List TokenKind} {texts : List (List Char)}
    (hprints : List.Forall₂ TokenKind.Prints kinds texts) (hkinds : ∀ kind ∈ kinds, kind.Printable)
    (hrow : kinds.IsChain TokenKind.MayPrecede) (line : Nat) :
    ∃ tokens, Scans line texts.flatten tokens ∧ tokens.map Token.kind = kinds ∧
      ∀ i token, tokens[i]? = some token →
        token.line = line + lineFeeds (texts.take i).flatten := by
  induction hprints generalizing line with
  | nil => exact ⟨[], .text rfl, rfl, by simp⟩
  | @cons kind text kinds texts hfirst hrest ih =>
    obtain ⟨hkind, hkinds⟩ := List.forall_mem_cons.1 hkinds
    obtain ⟨tokens, hscans, htokens, hlines⟩ := ih hkinds hrow.of_cons (line + lineFeeds text)
    refine ⟨⟨kind, line⟩ :: tokens, ?_, by rw [List.map_cons, htokens], line_of_cons hlines⟩
    rw [List.flatten_cons]
    by_cases htext : ∃ body, kind = .text body
    · obtain ⟨body, rfl⟩ := htext
      cases hfirst
      have hnext : ∀ next ∈ kinds.head?, (TokenKind.text body).MayPrecede next := by
        cases hrow with
        | singleton => simp
        | cons_cons h => simpa using h
      have hmeets : MeetsAt body.toList texts.flatten := by
        intro hlast hhead
        cases hrest with
        | nil => cases hhead
        | cons => exact (hnext _ rfl body rfl).2 hlast
      obtain ⟨more, later, rfl, hbehind⟩ :=
        hscans.behindText (splitAtMark?_eq_none hkind.2) hmeets
      have hmore : more = [] := by
        by_contra hmore
        rw [textToken, if_neg hmore] at htokens
        exact (hnext _ (by rw [← htokens]; rfl) body rfl).1 _ rfl
      subst hmore
      have hbody : textToken line body.toList = [⟨.text body, line⟩] := by
        rw [textToken, if_neg (by simpa using hkind.1), String.ofList_toList]
      rw [List.append_nil, hbody] at hbehind
      exact hbehind
    · push Not at htext
      obtain ⟨body, rfl, feeds, htakes⟩ := exists_takes_of_prints hfirst hkind htext line
      obtain ⟨inner, hinner, hfeeds⟩ := htakes.eq_append
      rw [List.append_nil] at hinner
      have hsplit : splitAtMark? openMark (openMark ++ body ++ texts.flatten) =
          some ([], body ++ texts.flatten) := by
        rw [List.append_assoc]
        exact (splitAtMark?_eq_some_iff (by simp [openMark])).2 ⟨rfl, by decide⟩
      refine .item hsplit (htakes.append _) ?_
      rw [lineFeeds_append, lineFeeds_openMark, Nat.zero_add, hinner, hfeeds] at hscans
      exact hscans

/-- **Printed tokens are scanned back.** Take any row of tokens that can be printed, with no two
texts next to each other, and for each token any of its texts. The tokens of these texts, one behind
the other, are the tokens of the row, each on the line on which its text starts. -/
theorem scan_printed {kinds : List TokenKind} {texts : List (List Char)}
    (hprints : List.Forall₂ TokenKind.Prints kinds texts) (hkinds : ∀ kind ∈ kinds, kind.Printable)
    (hrow : kinds.IsChain TokenKind.MayPrecede) :
    ∃ tokens, scan (String.ofList texts.flatten) = .ok tokens ∧ tokens.map Token.kind = kinds ∧
      ∀ i token, tokens[i]? = some token →
        token.line = 1 + lineFeeds (texts.take i).flatten := by
  obtain ⟨tokens, hscans, htokens, hlines⟩ := exists_scans_of_prints hprints hkinds hrow 1
  refine ⟨tokens, ?_, htokens, hlines⟩
  rw [scan, String.toList_ofList]
  exact scans_iff.2 hscans

/-- An opening tag whose named argument stands in front of the others, with a line feed between its
words and closing braces in a quoted span; a name that starts with a brace; nested raw blocks. -/
theorem scan_printed_if :
    let tag : Tag := ⟨"if", ["\x60x \x7d\x7d y\x60", "z"], [("k", "'b c'")]⟩
    let kinds : List TokenKind :=
      [.text "a\n", .opening tag, .output ⟨"\x7bn", [], []⟩ true, .comment "d \x7d\x7d e",
        .raw "\x7b\x7b#raw\x7d\x7d\x7b\x7b/raw\x7d\x7d", .text "f\x7b"]
    let content := "if k='b c'\n\x60x \x7d\x7d y\x60 z".toList
    let texts : List (List Char) :=
      [TokenKind.print (.text "a\n"), openMark ++ ('#' :: content ++ closeMark),
        TokenKind.print (.output ⟨"\x7bn", [], []⟩ true), TokenKind.print (.comment "d \x7d\x7d e"),
        TokenKind.print (.raw "\x7b\x7b#raw\x7d\x7d\x7b\x7b/raw\x7d\x7d"), ['f', '\x7b']]
    List.Forall₂ TokenKind.Prints kinds texts ∧ (∀ kind ∈ kinds, kind.Printable) ∧
      kinds.IsChain TokenKind.MayPrecede ∧
      ∃ tokens, scan (String.ofList texts.flatten) = .ok tokens ∧ tokens.map Token.kind = kinds ∧
        ∀ i token, tokens[i]? = some token →
          token.line = 1 + lineFeeds (texts.take i).flatten := by
  intro tag kinds content texts
  have hcontent : tag.Prints content := by
    refine ⟨_, "  k='b c'\n\x60x \x7d\x7d y\x60 z".toList.drop 1,
      .named "k" "'b c'" (.arg "\x60x \x7d\x7d y\x60" (.arg "z" .nil)), ?_, by decide⟩
    have hlast := @Spaced.cons [' '] "z".toList _ _ (by decide) (by simp) .nil
    have hsecond :=
      @Spaced.cons ['\n'] "\x60x \x7d\x7d y\x60".toList _ _ (by decide) (by simp) hlast
    exact @Spaced.cons [' '] "k='b c'".toList _ _ (by decide) (by simp) hsecond
  have hopening : TokenKind.Prints (.opening tag) (openMark ++ ('#' :: content ++ closeMark)) :=
    .opening hcontent (@Padded.mk content [] [] (by decide) (by decide) (by decide))
  have hprints : List.Forall₂ TokenKind.Prints kinds texts :=
    .cons (TokenKind.prints_print _) (.cons hopening (.cons (TokenKind.prints_print _)
      (.cons (TokenKind.prints_print _) (.cons (TokenKind.prints_print _)
        (.cons (.text "f\x7b") .nil)))))
  have hkinds : ∀ kind ∈ kinds, kind.Printable := by
    have htag : tag.Printable := ⟨by decide, by decide, by decide +kernel⟩
    have hname : (⟨"\x7bn", [], []⟩ : Tag).Printable := ⟨by decide, by simp, by simp⟩
    have hfirst : ∀ c ∈ "\x7bn".toList.head?, c ∉ ['#', '/', '>', '&'] := by
      intro c hc
      obtain rfl := Option.some.inj hc
      decide
    have hraw : IsNested "\x7b\x7b#raw\x7d\x7d\x7b\x7b/raw\x7d\x7d".toList := .block .nil .nil
    simp only [kinds, List.forall_mem_cons]
    exact ⟨⟨by decide, by decide⟩, ⟨htag, by decide⟩, ⟨hname, fun _ => hfirst⟩,
      ⟨by decide, by decide⟩, hraw, ⟨by decide, by decide⟩, by simp⟩
  have hrow : kinds.IsChain TokenKind.MayPrecede := by
    simp only [kinds, List.isChain_cons_cons]
    simp [TokenKind.MayPrecede]
  exact ⟨hprints, hkinds, hrow, scan_printed hprints hkinds hrow⟩

end Token

end Stencil
