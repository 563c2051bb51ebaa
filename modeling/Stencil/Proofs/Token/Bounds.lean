import Stencil.Proofs.Token.Lexemes

/-!
# The words and lines of a text

Each word of a tag is shorter than the text that the tag is read from, and no token is on a line
further down than the text has characters.

## Main definitions

* `Tag.Fits`, `TokenKind.Fits` - the words of a tag are no longer than a bound

Main statements: `Token.fits_of_scanFrom`, `Token.line_le_of_scanFrom`.
-/

namespace Stencil

open Text

/-- The words of a tag are no longer than a bound; of a named argument, what is behind the name. -/
structure Tag.Fits (bound : Nat) (tag : Tag) : Prop where
  name : tag.name.length ≤ bound
  args : ∀ arg ∈ tag.args, arg.length ≤ bound
  hash : ∀ entry ∈ tag.hash, entry.2.length ≤ bound

/-- A token whose tag, if it has one, fits. -/
def TokenKind.Fits (bound : Nat) : TokenKind → Prop
  | .output tag _ => tag.Fits bound
  | .opening tag => tag.Fits bound
  | .partialTag tag => tag.Fits bound
  | _ => True

variable {line bound : Nat} {tag : Tag} {kind : TokenKind}

theorem Tag.Fits.mono {more : Nat} (h : tag.Fits bound) (hle : bound ≤ more) : tag.Fits more where
  name := Nat.le_trans h.name hle
  args arg harg := Nat.le_trans (h.args arg harg) hle
  hash entry hentry := Nat.le_trans (h.hash entry hentry) hle

theorem TokenKind.Fits.mono {more : Nat} (h : kind.Fits bound)
    (hle : bound ≤ more) : kind.Fits more := by
  cases kind with
  | output tag escaped => exact Tag.Fits.mono h hle
  | opening tag => exact Tag.Fits.mono h hle
  | partialTag tag => exact Tag.Fits.mono h hle
  | _ => trivial

namespace Token

variable {text content word : List Char} {quote : Option Char} {words : List (List Char)}

theorem length_le_of_wordsFrom? (h : wordsFrom? word quote text = some words) :
    ∀ w ∈ words, w.length ≤ word.length + text.length := by
  -- Each character moves from the text to the word, or separates words.
  induction text generalizing word quote words with
  | nil =>
    simp only [wordsFrom?] at h
    split at h
    · cases h
    · obtain rfl := Option.some.inj h
      intro w hw
      split at hw
      · cases hw
      · obtain rfl := List.mem_singleton.1 hw
        rw [List.length_reverse]
        exact Nat.le_refl _
  | cons c text ih =>
    simp only [wordsFrom?] at h
    rw [List.length_cons]
    split at h
    · split at h
      · intro w hw
        have := ih h w hw
        rw [List.length_nil] at this
        omega
      · obtain ⟨later, hlater, rfl⟩ := Option.map_eq_some_iff.1 h
        intro w hw
        rcases List.mem_cons.1 hw with rfl | hw
        · rw [List.length_reverse]
          omega
        · have := ih hlater w hw
          rw [List.length_nil] at this
          omega
    · intro w hw
      have := ih h w hw
      rw [List.length_cons] at this
      omega

theorem length_le_of_hashPair? {key value : List Char} (h : hashPair? word = some (key, value)) :
    value.length ≤ word.length := by
  unfold hashPair? at h
  split at h
  · cases h
  · next key' value' hsplit =>
    split at h
    · cases h
    · obtain ⟨rfl, rfl⟩ := Prod.mk.inj (Option.some.inj h)
      rw [eq_append_of_splitAtMark? hsplit, List.length_append]
      exact Nat.le_add_left _ _

theorem fits_of_read (h : Tag.read line content = .ok tag) : tag.Fits content.length := by
  unfold Tag.read at h
  split at h
  · cases h
  · cases h
  · next name words hwords =>
    have hlength : ∀ w ∈ name :: words, w.length ≤ content.length := by
      have hle := length_le_of_wordsFrom? hwords
      rwa [List.length_nil, Nat.zero_add] at hle
    obtain rfl := Except.ok.inj h
    refine ⟨?_, ?_, ?_⟩
    · rw [String.length_ofList]
      exact hlength name (.head _)
    · intro arg harg
      obtain ⟨w, hw, rfl⟩ := List.mem_map.1 harg
      rw [String.length_ofList]
      exact hlength w (.tail _ (List.mem_filter.1 hw).1)
    · intro entry hentry
      obtain ⟨⟨key, value⟩, hpair, rfl⟩ := List.mem_map.1 hentry
      obtain ⟨w, hw, hhash⟩ := List.mem_filterMap.1 hpair
      rw [String.length_ofList]
      exact Nat.le_trans (length_le_of_hashPair? hhash) (hlength w (.tail _ hw))

theorem fits_of_readKind (h : readKind line content = .ok kind) :
    kind.Fits content.length := by
  have hbehind {rest : List Char} {tag : Tag} (h : Tag.read line (trim rest) = .ok tag) (c : Char) :
      tag.Fits (c :: rest).length :=
    (fits_of_read h).mono (Nat.le_succ_of_le (length_trim_le rest))
  unfold readKind at h
  split at h
  · obtain ⟨tag, htag, rfl⟩ := map_eq_ok.1 h
    exact hbehind htag _
  · split at h
    · cases h
    · obtain rfl := Except.ok.inj h
      trivial
  · obtain ⟨tag, htag, rfl⟩ := map_eq_ok.1 h
    exact hbehind htag _
  · obtain ⟨tag, htag, rfl⟩ := map_eq_ok.1 h
    exact hbehind htag _
  · obtain ⟨tag, htag, rfl⟩ := map_eq_ok.1 h
    exact fits_of_read htag

theorem fits_of_takeTag {taken : Taken} (h : takeTag line text = .ok taken) :
    taken.kind.Fits text.length := by
  have htrim := length_trim_le taken.inner
  rcases cases_of_takeTag h with ⟨body, tag, rfl, hbreak, htag, hkind⟩ | ⟨body, -, -, hkind⟩ |
    ⟨body, -, -, hkind⟩ | ⟨hbreak, hkind⟩
  · have hbody := congrArg List.length (eq_append_of_breakAtClose hbreak)
    simp only [List.length_append] at hbody
    rw [hkind, List.length_cons]
    exact (fits_of_read htag).mono (by omega)
  · rw [hkind]
    trivial
  · rw [hkind]
    trivial
  · have htext := congrArg List.length (eq_append_of_breakAtClose hbreak)
    simp only [List.length_append] at htext
    exact (fits_of_readKind hkind).mono (by omega)

theorem fits_of_mem_textToken {token : Token} (h : token ∈ textToken line text) :
    token.kind.Fits bound := by
  unfold textToken at h
  split at h
  · cases h
  · obtain rfl := List.mem_singleton.1 h
    trivial

theorem Takes.fits {body rest : List Char} {feeds : Nat} (h : Takes line body kind feeds rest) :
    kind.Fits body.length := by
  cases h with
  | tag htag _ => exact fits_of_takeTag htag
  | raw => trivial

/-- The words of a tag are shorter than the text, since its marks are not among them. -/
theorem fits_of_scanFrom (line : Nat) (text : List Char) :
    ∀ tokens, scanFrom line text = .ok tokens →
      ∀ token ∈ tokens, token.kind.Fits (text.length - openMark.length) := by
  intro tokens h
  -- By the rules of the scanner: each tag is read from what is left of the text.
  have hscans := scans_iff.1 h
  clear h
  induction hscans with
  | text => exact fun token htoken => fits_of_mem_textToken htoken
  | @item line feeds text front body rest kind tokens hsplit htakes hrest ih =>
    intro token htoken
    obtain ⟨inner, hbody, -⟩ := htakes.eq_append
    have htext := congrArg List.length (eq_append_of_splitAtMark? hsplit)
    have hlength := congrArg List.length hbody
    simp only [List.length_append] at htext hlength
    rcases List.mem_append.1 htoken with htoken | htoken
    · exact fits_of_mem_textToken htoken
    · rcases List.mem_cons.1 htoken with rfl | htoken
      · exact htakes.fits.mono (by omega)
      · exact (ih token htoken).mono (by omega)

theorem line_le_of_scanFrom {tokens : List Token} (h : scanFrom line text = .ok tokens)
    {token : Token} (htoken : token ∈ tokens) : token.line ≤ line + text.length := by
  obtain ⟨lexemes, hlexemes⟩ := exists_lexemes_of_scanFrom line text tokens h
  obtain ⟨i, hi⟩ := List.mem_iff_getElem?.1 htoken
  have hfeeds : lineFeeds (lexemes.take i).flatten ≤ (lexemes.take i).flatten.length :=
    List.count_le_length
  have hfront : (lexemes.take i).flatten.length ≤ text.length := by
    rw [← hlexemes.flatten]
    conv_rhs => rw [← List.take_append_drop i lexemes, List.flatten_append, List.length_append]
    exact Nat.le_add_right _ _
  rw [hlexemes.lines i token hi]
  omega

end Token

end Stencil
