import Stencil.Token.Scan

/-!
# The scanner by rules

A row of tokens is the result of the scanner exactly when two rules derive it: a text without the
mark of a tag is one token, and behind the first mark stands an item, which is a token by itself,
with the tokens of what follows it. Proofs about the scanner go by these rules.

## Main definitions

* `Token.Takes` - the item behind the mark of a tag: a tag or a whole raw block
* `Token.Scans` - the tokens of a text, by rules

Main statement: `Token.scans_iff`.
-/

namespace Stencil

open Text

namespace Token

/-- The item behind the mark of a tag: its token, the number of line feeds that the scanner counts
in it, and the text behind it. -/
inductive Takes (line : Nat) (body : List Char) : TokenKind → Nat → List Char → Prop where
  | tag {taken : Taken} (htag : takeTag line body = .ok taken)
      (hopens : opensRaw taken.kind = false) :
      Takes line body taken.kind (lineFeeds taken.inner) taken.rest
  | raw {taken : Taken} {raw rest : List Char} (htag : takeTag line body = .ok taken)
      (hopens : opensRaw taken.kind = true) (hraw : takeRaw? 0 taken.rest = some (raw, rest)) :
      Takes line body (.raw (String.ofList raw)) (lineFeeds taken.inner + lineFeeds raw) rest

/-- The tokens of a text that starts on a line. -/
inductive Scans : Nat → List Char → List Token → Prop where
  | text {line : Nat} {text : List Char} (hsplit : splitAtMark? openMark text = none) :
      Scans line text (textToken line text)
  | item {line feeds : Nat} {text front body rest : List Char} {kind : TokenKind}
      {tokens : List Token} (hsplit : splitAtMark? openMark text = some (front, body))
      (htakes : Takes (line + lineFeeds front) body kind feeds rest)
      (hrest : Scans (line + lineFeeds front + feeds) rest tokens) :
      Scans line text (textToken line front ++ ⟨kind, line + lineFeeds front⟩ :: tokens)

variable {line : Nat} {text : List Char} {tokens : List Token}

theorem scans_of_scanFrom (line : Nat) (text : List Char) :
    ∀ tokens, scanFrom line text = .ok tokens → Scans line text tokens := by
  fun_induction scanFrom line text with
  | case1 line text hsplit =>
    intro tokens h
    obtain rfl := Except.ok.inj h
    exact .text hsplit
  | case2 => simp
  | case3 => simp
  | case4 line text front body hsplit tagLine taken htag line' hopens raw rest hraw ih =>
    intro tokens h
    obtain ⟨later, hlater, h⟩ := bind_eq_ok.1 h
    obtain rfl := Except.ok.inj h
    refine .item hsplit (.raw htag hopens hraw) ?_
    rw [← Nat.add_assoc]
    exact ih later hlater
  | case5 line text front body hsplit tagLine taken htag line' hopens ih =>
    intro tokens h
    obtain ⟨later, hlater, h⟩ := bind_eq_ok.1 h
    obtain rfl := Except.ok.inj h
    exact .item hsplit (.tag htag (by simpa using hopens)) (ih later hlater)

theorem scanFrom_of_scans (h : Scans line text tokens) : scanFrom line text = .ok tokens := by
  induction h with
  | text hsplit =>
    rw [scanFrom]
    split
    · rfl
    · next hsome => simp [hsplit] at hsome
  | @item line feeds text front body rest kind tokens hsplit htakes hrest ih =>
    rw [scanFrom]
    split
    · next hnone => simp [hsplit] at hnone
    · next front' body' hsome =>
      obtain ⟨rfl, rfl⟩ : front = front' ∧ body = body' := by simpa [hsplit] using hsome
      cases htakes with
      | @tag taken htag hopens =>
        simp only
        split
        · next herror => simp [htag] at herror
        · next taken' htaken =>
          obtain rfl : taken = taken' := by simpa [htag] using htaken
          simp only [hopens, Bool.false_eq_true, if_false, ih]
          rfl
      | @raw taken raw rest htag hopens hraw =>
        simp only
        split
        · next herror => simp [htag] at herror
        · next taken' htaken =>
          obtain rfl : taken = taken' := by simpa [htag] using htaken
          rw [if_pos hopens]
          split
          · next hnone => simp [hraw] at hnone
          · next raw' rest' hsome =>
            obtain ⟨rfl, rfl⟩ : raw = raw' ∧ rest = rest' := by simpa [hraw] using hsome
            rw [Nat.add_assoc (line + _), ih]
            rfl

/-- The scanner gives the tokens that the rules derive. -/
theorem scans_iff : scanFrom line text = .ok tokens ↔ Scans line text tokens :=
  ⟨scans_of_scanFrom line text tokens, scanFrom_of_scans⟩

theorem lineFeeds_openMark : lineFeeds openMark = 0 := rfl

theorem lineFeeds_closeMark : lineFeeds closeMark = 0 := rfl

theorem lineFeeds_rawClose : lineFeeds rawClose = 0 := rfl

/-- The item is a part of the text behind the mark, with as many line feeds as are counted. -/
theorem Takes.eq_append {body rest : List Char} {kind : TokenKind} {feeds : Nat}
    (h : Takes line body kind feeds rest) :
    ∃ inner, body = inner ++ rest ∧ lineFeeds inner = feeds := by
  cases h with
  | @tag taken htag hopens =>
    obtain ⟨inner, hbody, hinner⟩ := exists_append_of_takeTag htag
    exact ⟨inner ++ closeMark, hbody, hinner⟩
  | @raw taken raw rest htag hopens hraw =>
    obtain ⟨inner, hbody, hinner⟩ := exists_append_of_takeTag htag
    refine ⟨inner ++ closeMark ++ (raw ++ rawClose), ?_, ?_⟩
    · rw [hbody, eq_append_of_takeRaw? hraw]
      simp only [List.append_assoc]
    · rw [lineFeeds_append, hinner, lineFeeds_append, lineFeeds_rawClose, Nat.add_zero]

end Token

end Stencil
