import Stencil.Proofs.Template.Faults
import Stencil.Proofs.Template.OpenBlocks

/-!
# The line of a fault is that of a tag

A text that has no tree has a fault on the line on which the scanner has started to read some tag.
If the scanner itself fails, this is the first tag that it cannot read; otherwise it is one of the
tags that it has read, since texts are always taken up and no block is left open at the end.

Main statement: `Template.exists_startsTag_of_parse`.
-/

namespace Stencil

open Text

variable {tokens : List Token} {e : Error}

/-- A text can be taken up anywhere. -/
theorem Assembly.isText_of_step {opens : List Nat} {a : Assembly} {entry : Token × Nat}
    (h : step opens a entry = .error e) : entry.1.isText = false := by
  obtain ⟨⟨kind, line⟩, position⟩ := entry
  cases kind with
  | text body => cases h
  | _ => rfl

/-- A row of tokens that has no tree has a token at fault, and this is no text. -/
theorem Template.exists_token_of_ofTokens (h : ofTokens tokens = .error e) :
    ∃ token ∈ tokens, token.isText = false ∧ ∃ fault, e = .parse token.line fault := by
  rcases bind_eq_error.1 h with hrun | ⟨a, hrun, hfinish⟩
  · obtain ⟨a, entry, hentry, hstep⟩ := exists_of_foldlM_eq_error hrun
    exact ⟨entry.1, List.fst_mem_of_mem_zipIdx hentry, Assembly.isText_of_step hstep,
      Assembly.failsAt_step _ _ _ e hstep⟩
  · -- Only paired opening tags open blocks, so a run over the whole row closes all of them.
    rw [← Assembly.afterFirst_length] at hrun
    rw [Assembly.finish, Assembly.blocks_of_afterFirst_length hrun] at hfinish
    cases hfinish

/-- A text that has no tree has a fault, on a line that is one more than the number of line feeds in
front of a place at which the scanner starts to read a tag. If the scanner fails, then with this
fault and at the first tag that it cannot read. -/
theorem Template.exists_startsTag_of_parse {source : String} (h : Template.parse source = .error e) :
    ∃ line fault front body, e = .parse line fault ∧
      source.toList = front ++ Token.openMark ++ body ∧
      Token.StartsTag source.toList front body ∧ line = 1 + lineFeeds front ∧
      ∀ e', Token.scan source = .error e' →
        e' = e ∧ Token.StopsAt 1 source.toList front body e := by
  rcases bind_eq_error.1 h with hscan | ⟨tokens, hscan, htokens⟩
  · obtain ⟨front, body, hstops⟩ := Token.exists_stopsAt_of_scanFrom hscan
    obtain ⟨fault, hfault⟩ := hstops.stops.exists_fault
    refine ⟨_, fault, front, body, hfault, hstops.start.eq_append, hstops.start, rfl, ?_⟩
    intro e' he'
    exact ⟨Except.error.inj (he'.symm.trans hscan), hstops⟩
  · obtain ⟨token, htoken, hnoText, fault, hfault⟩ := exists_token_of_ofTokens htokens
    obtain ⟨front, body, hstart, hline⟩ :=
      Token.exists_startsTag_of_scans (Token.scans_iff.1 hscan) token htoken hnoText
    refine ⟨_, fault, front, body, hfault, hstart.eq_append, hstart, hline, ?_⟩
    intro e' he'
    cases hscan.symm.trans he'

/-- A raw block that is not closed, behind a comment of two lines. -/
theorem Template.exists_startsTag_of_parse_raw :
    let source := "a\n\x7b\x7b!b\n\x7d\x7d\x7b\x7b#raw\x7d\x7d\n\x7b\x7b/if\x7d\x7d"
    let e : Error := .parse 3 .unclosedRaw
    Template.parse source = .error e ∧
      ∃ line fault front body, e = .parse line fault ∧
        source.toList = front ++ Token.openMark ++ body ∧
        Token.StartsTag source.toList front body ∧ line = 1 + lineFeeds front ∧
        ∀ e', Token.scan source = .error e' →
          e' = e ∧ Token.StopsAt 1 source.toList front body e := by
  intro source e
  have hparse : Template.parse source = .error e := by
    dsimp only [source, e]
    cbv
  exact ⟨hparse, Template.exists_startsTag_of_parse hparse⟩

end Stencil
