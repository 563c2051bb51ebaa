import Stencil.Proofs.Token.Locality

/-!
# Where the scanner starts to read tags

The scanner starts to read a tag at the first mark of a tag in the text, and then at the first mark
behind each item that it has taken; marks inside of an item are passed over. Each token that is no
text is on the line of such a place, and a scanner that fails does so at one of them, behind tags
that it has all read.

## Main definitions

* `Token.StartsTag` - the places at which the scanner starts to read a tag
* `Token.Unreadable` - why the scanner stops at a tag
* `Token.StopsAt` - the first tag that cannot be read

Main statements: `Token.exists_startsTag_of_scans`, `Token.exists_stopsAt_of_scanFrom`.
-/

namespace Stencil

open Text

namespace Token

variable {line line' feeds feeds' : Nat} {text front body rest rest' : List Char}
  {kind kind' : TokenKind} {tokens : List Token} {e : Error}

/-- The places at which the scanner starts to read a tag, each by the text in front of its opening
braces and the text behind them: the first mark in the text, and the places behind the item there,
if it can be taken. -/
inductive StartsTag : List Char → List Char → List Char → Prop where
  | first {text front body : List Char} (hsplit : splitAtMark? openMark text = some (front, body)) :
      StartsTag text front body
  | later {line feeds : Nat} {text front item rest front' body' : List Char} {kind : TokenKind}
      (hsplit : splitAtMark? openMark text = some (front, item ++ rest))
      (htakes : Takes line (item ++ rest) kind feeds rest) (hlater : StartsTag rest front' body') :
      StartsTag text (front ++ openMark ++ item ++ front') body'

/-- Why the scanner stops at a tag: the tag cannot be read, or it opens a raw block that is not
closed. -/
inductive Unreadable (line : Nat) (body : List Char) : Error → Prop where
  | tag {e : Error} (htag : takeTag line body = .error e) : Unreadable line body e
  | raw {taken : Taken} (htag : takeTag line body = .ok taken) (hopens : opensRaw taken.kind = true)
      (hraw : takeRaw? 0 taken.rest = none) : Unreadable line body (.parse line .unclosedRaw)

/-- The scanner stops at a tag, and it has read the tags at all other places, which are in front of
this one. -/
structure StopsAt (line : Nat) (text front body : List Char) (e : Error) : Prop where
  start : StartsTag text front body
  stops : Unreadable (line + lineFeeds front) body e
  others : ∀ front' body', StartsTag text front' body' → front' ≠ front →
    front'.length < front.length ∧ ∃ kind feeds rest, Takes line body' kind feeds rest

/-! ### Items -/

/-- There is one item behind a mark, on whatever line. -/
theorem Takes.unique (h : Takes line body kind feeds rest)
    (h' : Takes line' body kind' feeds' rest') : rest = rest' := by
  have h' := h'.onLine line
  cases h with
  | tag htag hopens =>
    cases h' with
    | tag htag' hopens' => rw [Except.ok.inj (htag.symm.trans htag')]
    | raw htag' hopens' =>
      rw [Except.ok.inj (htag.symm.trans htag'), hopens'] at hopens
      cases hopens
  | raw htag hopens hraw =>
    cases h' with
    | tag htag' hopens' =>
      rw [Except.ok.inj (htag.symm.trans htag'), hopens'] at hopens
      cases hopens
    | raw htag' hopens' hraw' =>
      rw [Except.ok.inj (htag.symm.trans htag')] at hraw
      exact (Prod.mk.inj (Option.some.inj (hraw.symm.trans hraw'))).2

theorem Unreadable.not_takes (h : Unreadable line body e) : ¬ Takes line' body kind feeds rest := by
  intro htakes
  have htakes := htakes.onLine line
  cases h with
  | tag htag =>
    cases htakes with
    | tag htag' => cases htag.symm.trans htag'
    | raw htag' => cases htag.symm.trans htag'
  | raw htag hopens hraw =>
    cases htakes with
    | tag htag' hopens' =>
      rw [← Except.ok.inj (htag.symm.trans htag'), hopens] at hopens'
      cases hopens'
    | raw htag' hopens' hraw' =>
      rw [← Except.ok.inj (htag.symm.trans htag'), hraw] at hraw'
      cases hraw'

/-! ### Places of tags -/

theorem StartsTag.eq_append (h : StartsTag text front body) : text = front ++ openMark ++ body := by
  induction h with
  | first hsplit => exact eq_append_of_splitAtMark? hsplit
  | later hsplit htakes hlater ih =>
    rw [eq_append_of_splitAtMark? hsplit, ih]
    simp only [List.append_assoc]

/-- A place in the rest behind the first item is one in the text, on as many lines further down as
the text in front of the rest has. -/
theorem StartsTag.behind (hsplit : splitAtMark? openMark text = some (front, body))
    (htakes : Takes line body kind feeds rest) {front' body' : List Char}
    (h : StartsTag rest front' body') :
    ∃ front'', StartsTag text front'' body' ∧
      lineFeeds front'' = lineFeeds front + feeds + lineFeeds front' := by
  obtain ⟨item, rfl, hitem⟩ := htakes.eq_append
  refine ⟨_, .later hsplit htakes h, ?_⟩
  simp only [lineFeeds_append, lineFeeds_openMark, hitem, Nat.add_zero]

/-- The place of a tag that cannot be read is the last one, and the tags at all others are read. -/
theorem StartsTag.takes_of_ne (h : StartsTag text front body) (hstops : Unreadable line body e)
    {front' body' : List Char} (h' : StartsTag text front' body') (hne : front' ≠ front) :
    front'.length < front.length ∧ ∃ kind feeds rest, Takes line body' kind feeds rest := by
  induction h generalizing front' with
  | first hsplit =>
    cases h' with
    | first hsplit' =>
      exact absurd (Prod.mk.inj (Option.some.inj (hsplit'.symm.trans hsplit))).1 hne
    | later hsplit' htakes =>
      obtain ⟨-, rfl⟩ := Prod.mk.inj (Option.some.inj (hsplit.symm.trans hsplit'))
      exact absurd htakes hstops.not_takes
  | later hsplit htakes hlater ih =>
    cases h' with
    | first hsplit' =>
      obtain ⟨rfl, rfl⟩ := Prod.mk.inj (Option.some.inj (hsplit'.symm.trans hsplit))
      refine ⟨?_, _, _, _, htakes.onLine line⟩
      simp only [List.length_append, openMark, List.length_cons]
      omega
    | later hsplit' htakes' hlater' =>
      obtain ⟨rfl, hitem⟩ := Prod.mk.inj (Option.some.inj (hsplit.symm.trans hsplit'))
      rw [← hitem] at htakes'
      obtain rfl := htakes.unique htakes'
      obtain rfl := List.append_cancel_right hitem
      obtain ⟨hlength, htakes⟩ := ih hstops hlater' fun heq => hne (by rw [heq])
      refine ⟨?_, htakes⟩
      simp only [List.length_append]
      omega

/-! ### The lines of tokens and of faults -/

theorem isText_of_mem_textToken {token : Token} (h : token ∈ textToken line text) :
    token.isText = true := by
  unfold textToken at h
  split at h
  · cases h
  · obtain rfl := List.mem_singleton.1 h
    rfl

/-- Each token that is no text is on the line on which the scanner has started to read it. -/
theorem exists_startsTag_of_scans (h : Scans line text tokens) :
    ∀ token ∈ tokens, token.isText = false →
      ∃ front body, StartsTag text front body ∧ token.line = line + lineFeeds front := by
  induction h with
  | text hsplit =>
    intro token htoken hnoText
    rw [isText_of_mem_textToken htoken] at hnoText
    cases hnoText
  | @item line feeds text front body rest kind tokens hsplit htakes hrest ih =>
    intro token htoken hnoText
    rcases List.mem_append.1 htoken with htoken | htoken
    · rw [isText_of_mem_textToken htoken] at hnoText
      cases hnoText
    · rcases List.mem_cons.1 htoken with rfl | htoken
      · exact ⟨front, body, .first hsplit, rfl⟩
      · obtain ⟨front', body', hstart, hline⟩ := ih token htoken hnoText
        obtain ⟨front'', hstart, hfeeds⟩ := hstart.behind hsplit htakes
        exact ⟨front'', body', hstart, by omega⟩

/-- A scanner that fails has started to read a tag, and stops there. -/
theorem exists_unreadable_of_scanFrom (line : Nat) (text : List Char) :
    ∀ e, scanFrom line text = .error e → ∃ front body, StartsTag text front body ∧
      Unreadable (line + lineFeeds front) body e := by
  fun_induction scanFrom line text with
  | case1 => simp
  | case2 line text front body hsplit tagLine error htag =>
    rintro e h
    obtain rfl := Except.error.inj h
    exact ⟨front, body, .first hsplit, .tag htag⟩
  | case3 line text front body hsplit tagLine taken htag hopens hraw =>
    rintro e h
    obtain rfl := Except.error.inj h
    exact ⟨front, body, .first hsplit, .raw htag hopens hraw⟩
  | case4 line text front body hsplit tagLine taken htag line' hopens raw rest hraw ih =>
    intro e h
    rcases bind_eq_error.1 h with h | ⟨tokens, -, h⟩
    · obtain ⟨front', body', hstart, hstops⟩ := ih e h
      obtain ⟨front'', hstart, hfeeds⟩ := hstart.behind hsplit (.raw htag hopens hraw)
      refine ⟨front'', body', hstart, ?_⟩
      rwa [hfeeds, ← Nat.add_assoc, ← Nat.add_assoc, ← Nat.add_assoc]
    · cases h
  | case5 line text front body hsplit tagLine taken htag line' hopens ih =>
    intro e h
    rcases bind_eq_error.1 h with h | ⟨tokens, -, h⟩
    · obtain ⟨front', body', hstart, hstops⟩ := ih e h
      obtain ⟨front'', hstart, hfeeds⟩ := hstart.behind hsplit (.tag htag (by simpa using hopens))
      refine ⟨front'', body', hstart, ?_⟩
      rwa [hfeeds, ← Nat.add_assoc, ← Nat.add_assoc]
    · cases h

/-- A scanner that fails stops at the first tag that it cannot read. -/
theorem exists_stopsAt_of_scanFrom (h : scanFrom line text = .error e) :
    ∃ front body, StopsAt line text front body e := by
  obtain ⟨front, body, hstart, hstops⟩ := exists_unreadable_of_scanFrom line text e h
  refine ⟨front, body, hstart, hstops, fun front' body' hstart' hne => ?_⟩
  obtain ⟨hlength, kind, feeds, rest, htakes⟩ := hstart.takes_of_ne hstops hstart' hne
  exact ⟨hlength, kind, feeds, rest, htakes.onLine line⟩

end Token

end Stencil
