import Stencil.Proofs.Token.Lexemes
import Stencil.Proofs.Token.Scans
import Stencil.Proofs.Template.Lines

/-!
# Scanning looks no further than it has to

What a reader takes off the front of a text is the same whatever follows the text. So the tokens of
two texts, one behind the other, are those of the first one and those of the second one, where a
text at the seam is one token and the second text starts on a line further down.

## Main definitions

* `Token.MeetsAt` - two texts between which no brace of one belongs to a mark of the other

Main statement: `Token.Scans.append`.
-/

namespace Stencil

open Text

namespace Token

variable {line line' : Nat} {text body front back behind rest raw : List Char} {depth : Nat}
  {tag : Tag} {kind : TokenKind} {taken : Taken}

/-! ### Marks across a seam -/

/-- Two texts, one behind the other, make no new mark of a tag: the first one does not end with an
opening brace if the second one starts with one. -/
def MeetsAt (front back : List Char) : Prop :=
  front.getLast? = some '\x7b' → back.head? ≠ some '\x7b'

/-- A mark of a tag in two texts, one behind the other, stands in one of them or across the seam. -/
theorem openMark_isInfix_append (h : openMark <:+: front ++ back) :
    openMark <:+: front ∨ openMark <:+: back ∨
      front.getLast? = some '\x7b' ∧ back.head? = some '\x7b' := by
  induction front with
  | nil => exact .inr (.inl h)
  | cons c front ih =>
    rw [List.cons_append, List.infix_cons_iff] at h
    rcases h with hprefix | hinfix
    · cases front with
      | nil =>
        simp only [openMark, List.nil_append, List.cons_prefix_cons] at hprefix
        obtain ⟨rfl, hnext⟩ := hprefix
        cases back with
        | nil => simp at hnext
        | cons b back =>
          obtain ⟨rfl, -⟩ := List.cons_prefix_cons.1 hnext
          exact .inr (.inr ⟨rfl, rfl⟩)
      | cons next front =>
        simp only [openMark, List.cons_append, List.cons_prefix_cons] at hprefix
        obtain ⟨rfl, rfl, -⟩ := hprefix
        exact .inl (List.prefix_iff_eq_append.2 rfl).isInfix
    · rcases ih hinfix with hfront | hback | ⟨hlast, hhead⟩
      · exact .inl (hfront.trans (List.infix_cons_iff.2 (.inr (List.infix_refl _))))
      · exact .inr (.inl hback)
      · refine .inr (.inr ⟨?_, hhead⟩)
        rw [List.getLast?_cons, hlast]
        rfl

/-- The first mark of a tag behind a text that has none. -/
theorem splitAtMark?_openMark_append (hfront : ¬ openMark <:+: front)
    (hmeets : MeetsAt front back) :
    splitAtMark? openMark (front ++ back) =
      (splitAtMark? openMark back).map fun (before, after) => (front ++ before, after) := by
  have hmark : openMark ≠ [] := by simp [openMark]
  cases hback : splitAtMark? openMark back with
  | none =>
    have hnone := not_isInfix_of_splitAtMark?_eq_none hback
    cases hsplit : splitAtMark? openMark (front ++ back) with
    | none => rfl
    | some parts =>
      have hinfix : openMark <:+: front ++ back :=
        ⟨parts.1, parts.2, (eq_append_of_splitAtMark? hsplit).symm⟩
      rcases openMark_isInfix_append hinfix with h | h | h
      · exact absurd h hfront
      · exact absurd h hnone
      · exact absurd h.2 (hmeets h.1)
  | some parts =>
    obtain ⟨before, after⟩ := parts
    obtain ⟨rfl, hfirst⟩ := (splitAtMark?_eq_some_iff hmark).1 hback
    refine (splitAtMark?_eq_some_iff hmark).2 ⟨by simp, fun hinfix => ?_⟩
    rw [List.append_assoc] at hinfix
    rcases openMark_isInfix_append hinfix with h | h | h
    · exact hfront h
    · exact hfirst h
    · -- The mark begins with the brace that a text in front of it would meet.
      refine hmeets h.1 ?_
      cases before with
      | nil => rfl
      | cons b before => simpa using h.2

/-! ### Readers of tags -/

/-- A comment without hyphens does not begin with two of them. -/
theorem takeTag_comment (h : ¬ ['-', '-'] <+: body) :
    takeTag line ('!' :: body) = takeComment line (splitAtMark? closeMark body) := by
  unfold takeTag
  split
  · next heq => cases heq
  · next heq =>
    rw [(List.cons.inj heq).2] at h
    exact absurd (List.prefix_append ['-', '-'] _) h
  · next heq =>
    rw [(List.cons.inj heq).2]
  · next hother => exact absurd rfl (hother body)

/-- A tag with two braces that is no comment is read up to the first two closing braces outside
of quoted spans. -/
theorem takeTag_plain (hbrace : text.head? ≠ some '\x7b') (hmark : text.head? ≠ some '!')
    (hbreak : breakAtClose closeMark none text = some (front, rest)) :
    takeTag line text =
      (readKind line (trim front)).map fun kind => ⟨kind, front, rest⟩ := by
  unfold takeTag
  split
  · exact absurd rfl hbrace
  · exact absurd rfl hmark
  · exact absurd rfl hmark
  · simp only [hbreak]
    cases readKind line (trim front) <;> rfl

/-- What takes a tag off a text does not look behind the tag. -/
theorem takeTag_append (h : takeTag line text = .ok taken) (behind : List Char) :
    takeTag line (text ++ behind) = .ok { taken with rest := taken.rest ++ behind } := by
  have hbehind {mark text front rest : List Char} (hmark : mark ≠ [])
      (hbreak : breakAtClose mark none text = some (front, rest)) :
      breakAtClose mark none (text ++ behind) = some (front, rest ++ behind) := by
    rw [eq_append_of_breakAtClose hbreak, List.append_assoc]
    exact breakAtClose_append hmark hbreak _
  have hcomment {mark : List Char} (hmark : mark ≠ []) {body : List Char}
      (h : takeComment line (splitAtMark? mark body) = .ok taken) :
      takeComment line (splitAtMark? mark (body ++ behind)) =
        .ok { taken with rest := taken.rest ++ behind } := by
    obtain ⟨hsplit, hkind⟩ := eq_of_takeComment h
    rw [splitAtMark?_append hmark hsplit, takeComment, ← hkind]
  unfold takeTag at h
  split at h
  · next body =>
    cases hbreak : breakAtClose tripleMark none body with
    | none => simp [hbreak] at h
    | some parts =>
      simp only [hbreak, bind_eq_ok] at h
      obtain ⟨tag, htag, h⟩ := h
      obtain rfl := Except.ok.inj h
      simp only [List.cons_append, takeTag, hbehind (by simp [tripleMark]) hbreak, htag]
      rfl
  · next body => exact hcomment (by simp [commentMark]) h
  · next body hhyphens =>
    -- The closing mark is in front of what follows, so two hyphens there would be known already.
    obtain ⟨hsplit, -⟩ := eq_of_takeComment h
    have hbody := eq_append_of_splitAtMark? hsplit
    rw [List.cons_append, takeTag_comment ?_]
    · exact hcomment (by simp [closeMark]) h
    · intro hprefix
      have hlength : ['-', '-'].length ≤ body.length := by
        simp only [hbody, List.length_append, closeMark, List.length_cons]
        omega
      obtain ⟨rest, hrest⟩ := List.prefix_of_prefix_length_le hprefix
        (List.prefix_append body behind) hlength
      exact hhyphens rest hrest.symm
  · next hbrace _ hmark =>
    cases hbreak : breakAtClose closeMark none text with
    | none => simp [hbreak] at h
    | some parts =>
      simp only [hbreak, bind_eq_ok] at h
      obtain ⟨kind, hkind, h⟩ := h
      obtain rfl := Except.ok.inj h
      cases text with
      | nil => simp [breakAtClose] at hbreak
      | cons c text =>
        rw [takeTag_plain ?_ ?_ (hbehind (by simp [closeMark]) hbreak), hkind]
        · rfl
        · rintro hc
          obtain rfl := Option.some.inj hc
          exact hbrace text rfl
        · rintro hc
          obtain rfl := Option.some.inj hc
          exact hmark text rfl

/-- The line of a tag counts in errors only. -/
theorem read_line {content : List Char} (h : Tag.read line content = .ok tag) (line' : Nat) :
    Tag.read line' content = .ok tag := by
  unfold Tag.read at h ⊢
  split at h
  · cases h
  · cases h
  · next hwords => simpa only [hwords] using h

theorem readKind_line {content : List Char} (h : readKind line content = .ok kind) (line' : Nat) :
    readKind line' content = .ok kind := by
  unfold readKind at h ⊢
  split at h
  · obtain ⟨tag, htag, rfl⟩ := map_eq_ok.1 h
    exact map_eq_ok.2 ⟨tag, read_line htag line', rfl⟩
  · split at h
    · cases h
    · next hname =>
      obtain rfl := Except.ok.inj h
      exact if_neg hname
  all_goals
    obtain ⟨tag, htag, rfl⟩ := map_eq_ok.1 h
    exact map_eq_ok.2 ⟨tag, read_line htag line', rfl⟩

theorem takeTag_line (h : takeTag line text = .ok taken) (line' : Nat) :
    takeTag line' text = .ok taken := by
  have hcomment {split : Option (List Char × List Char)} (h : takeComment line split = .ok taken) :
      takeComment line' split = .ok taken := by
    cases split with
    | none => cases h
    | some parts => exact h
  unfold takeTag at h ⊢
  split at h
  · next body =>
    cases hbreak : breakAtClose tripleMark none body with
    | none => simp [hbreak] at h
    | some parts =>
      simp only [hbreak, bind_eq_ok] at h ⊢
      obtain ⟨tag, htag, h⟩ := h
      exact ⟨tag, read_line htag line', h⟩
  · exact hcomment h
  · exact hcomment h
  · cases hbreak : breakAtClose closeMark none text with
    | none => simp [hbreak] at h
    | some parts =>
      simp only [hbreak, bind_eq_ok] at h ⊢
      obtain ⟨kind, hkind, h⟩ := h
      exact ⟨kind, readKind_line hkind line', h⟩

/-- What takes the content of a raw block off a text does not look behind the block: the marks that
open a raw block are as long as those that close one. -/
theorem takeRaw?_append (h : takeRaw? depth text = some (raw, rest)) (behind : List Char) :
    takeRaw? depth (text ++ behind) = some (raw, rest ++ behind) := by
  induction text generalizing depth raw with
  | nil => simp [takeRaw?] at h
  | cons c text ih =>
    have hlength : rawClose.length ≤ (c :: text).length := by
      rw [eq_append_of_takeRaw? h, List.length_append, List.length_append]
      omega
    have hopen := @dropMark?_append rawOpen _ hlength behind
    have hclose := dropMark?_append hlength behind
    have hnext {depth : Nat} {raw : List Char}
        (h : (takeRaw? depth text).map (fun (body, rest) => (c :: body, rest)) =
          some (raw, rest)) :
        (takeRaw? depth (text ++ behind)).map (fun (body, rest) => (c :: body, rest)) =
          some (raw, rest ++ behind) := by
      simp only [Option.map_eq_some_iff, Prod.exists, Prod.mk.injEq] at h
      obtain ⟨inner, _, hraw, rfl, rfl⟩ := h
      rw [ih hraw]
      rfl
    rw [List.cons_append] at hopen hclose ⊢
    simp only [takeRaw?, hopen, hclose, Option.isSome_map] at h ⊢
    split at h
    · next hsome =>
      rw [if_pos hsome]
      exact hnext h
    · next hnone =>
      rw [if_neg hnone]
      split at h
      · next hdrop =>
        obtain ⟨rfl, rfl⟩ : [] = raw ∧ _ = rest := by simpa using h
        simp only [hdrop]
        rfl
      · next hdrop =>
        simp only [hdrop]
        exact hnext h
      · next hdrop =>
        simp only [hdrop]
        exact hnext h

/-! ### Items -/

variable {feeds : Nat}

theorem Takes.append (h : Takes line body kind feeds rest) (behind : List Char) :
    Takes line (body ++ behind) kind feeds (rest ++ behind) := by
  cases h with
  | tag htag hopens => exact .tag (takeTag_append htag behind) hopens
  | @raw taken raw rest htag hopens hraw =>
    exact @Takes.raw _ _ { taken with rest := taken.rest ++ behind } _ _
      (takeTag_append htag behind) hopens (takeRaw?_append hraw behind)

theorem Takes.onLine (h : Takes line body kind feeds rest) (line' : Nat) :
    Takes line' body kind feeds rest := by
  cases h with
  | tag htag hopens => exact .tag (takeTag_line htag line') hopens
  | raw htag hopens hraw => exact .raw (takeTag_line htag line') hopens hraw

/-! ### Rows of tokens -/

variable {tokens later : List Token}

theorem map_moveLines_textToken (d : Nat) (line : Nat) (text : List Char) :
    (textToken line text).map (moveLines d) = textToken (line + d) text := by
  unfold textToken
  split <;> rfl

theorem exists_eq_textToken {d : Nat} (h : tokens.map (moveLines d) = textToken line text) :
    ∃ line', tokens = textToken line' text := by
  unfold textToken at h ⊢
  split at h
  · next htext => exact ⟨line, by rw [if_pos htext, List.map_eq_nil_iff.1 h]⟩
  · next htext =>
    obtain ⟨token, rfl, htoken⟩ := List.map_eq_singleton_iff.1 h
    have hkind : token.kind = .text (String.ofList text) := congrArg Token.kind htoken
    exact ⟨token.line, by rw [if_neg htext, ← hkind]⟩

/-- A text that starts further down has the same tokens further down. -/
theorem Scans.moveLines (h : Scans line text tokens) (d : Nat) :
    Scans (line + d) text (tokens.map (moveLines d)) := by
  induction h with
  | text hsplit =>
    rw [map_moveLines_textToken]
    exact .text hsplit
  | @item line feeds text front body rest kind tokens hsplit htakes hrest ih =>
    have hmove : line + lineFeeds front + d = line + d + lineFeeds front := by omega
    rw [List.map_append, map_moveLines_textToken, List.map_cons, Token.moveLines, hmove]
    refine .item hsplit (htakes.onLine _) ?_
    rwa [← hmove, Nat.add_right_comm]

/-- A text behind another one that has no mark continues it. -/
theorem Scans.behindText (h : Scans (line + lineFeeds front) back tokens)
    (hfront : splitAtMark? openMark front = none) (hmeets : MeetsAt front back) :
    ∃ body later, tokens = textToken (line + lineFeeds front) body ++ later ∧
      Scans line (front ++ back) (textToken line (front ++ body) ++ later) := by
  have hsplit := splitAtMark?_openMark_append (not_isInfix_of_splitAtMark?_eq_none hfront) hmeets
  cases h with
  | text hback =>
    refine ⟨back, [], (List.append_nil _).symm, ?_⟩
    rw [List.append_nil]
    exact .text (by rw [hsplit, hback]; rfl)
  | @item line' feeds text before body rest kind tokens hback htakes hrest =>
    refine ⟨before, _, rfl, ?_⟩
    have hline : line + lineFeeds front + lineFeeds before =
        line + lineFeeds (front ++ before) := by
      rw [lineFeeds_append, Nat.add_assoc]
    rw [hline] at htakes hrest ⊢
    exact .item (by rw [hsplit, hback]; rfl) htakes hrest

/-- **Scanning looks no further than it has to.** The tokens of two texts, one behind the other,
are those of the first one and those of the second one. At the seam a text at the end of the first
one and a text at the front of the second one are one token. -/
theorem Scans.append {a b : List Char} {ta tb : List Token} (ha : Scans line a ta)
    (hb : Scans (line + lineFeeds a) b tb) (hmeets : MeetsAt a b) :
    ∃ front back l x y, ta = front ++ textToken l x ∧
      tb = textToken (l + lineFeeds x) y ++ back ∧
      Scans line (a ++ b) (front ++ textToken l (x ++ y) ++ back) := by
  induction ha with
  | @text line text hsplit =>
    obtain ⟨body, later, rfl, hscans⟩ := hb.behindText hsplit hmeets
    exact ⟨[], later, line, text, body, rfl, rfl, hscans⟩
  | @item line feeds text before body rest kind tokens hsplit htakes hrest ih =>
    obtain ⟨inner, hbody, hinner⟩ := htakes.eq_append
    have htext : text = before ++ openMark ++ inner ++ rest := by
      rw [eq_append_of_splitAtMark? hsplit, hbody]
      simp only [List.append_assoc]
    have hlines : line + lineFeeds text = line + lineFeeds before + feeds + lineFeeds rest := by
      simp only [htext, lineFeeds_append, lineFeeds_openMark, hinner]
      omega
    have hmeets : MeetsAt rest b := by
      intro hlast
      refine hmeets ?_
      rw [htext, List.getLast?_append, hlast]
      rfl
    obtain ⟨front, back, l, x, y, rfl, htb, hscans⟩ := ih (hlines ▸ hb) hmeets
    refine ⟨textToken line before ++ ⟨kind, line + lineFeeds before⟩ :: front, back, l, x, y,
      ?_, htb, ?_⟩
    · simp only [List.append_assoc, List.cons_append]
    · rw [List.append_assoc, List.append_assoc, List.cons_append, ← List.append_assoc front]
      exact .item (splitAtMark?_append (by simp [openMark]) hsplit b) (htakes.append b) hscans

end Token

end Stencil
