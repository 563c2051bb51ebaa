import Stencil.Proofs.Path.Slices
import Stencil.Proofs.Template.Faults
import Stencil.Proofs.Token.Words

/-!
# The grammar of comparisons

A comparison is two operands with an operator between them and blanks around all three. What is
read is what this grammar says: each text that it describes is read, as what it describes, and no
other text is. No text has two readings, although blanks may be left out everywhere, since a word
ends where an operator begins and no operand begins like the second character of an operator.

## Main definitions

* `Operand.Denoted` - what a word without quotation marks stands for
* `Operand.Spelled` - the texts of operands
* `Comparison.Layout` - the parts of the text of a comparison
* `Comparison.Layout.Spells` - the comparison that they write

Main statements: `Comparison.readOperand_append`, `Comparison.exists_of_readOperand`,
`Comparison.parse_layout`.
-/

namespace Stencil

open Text
open Token (IsGap)

/-! ### Operands -/

namespace Operand

/-- The words for the truth values and null. -/
def constants : List (List Char) :=
  [['t', 'r', 'u', 'e'], ['f', 'a', 'l', 's', 'e'], ['n', 'u', 'l', 'l']]

/-- What a word stands for. Truth values are texts, and null is the empty text; of the other words
the numerals are numbers, and the others are paths. -/
inductive Denoted : List Char → Operand → Prop where
  | truth {word : List Char}
      (hword : word = ['t', 'r', 'u', 'e'] ∨ word = ['f', 'a', 'l', 's', 'e']) :
      Denoted word (.str (String.ofList word))
  | null : Denoted ['n', 'u', 'l', 'l'] (.str "")
  | number {word : List Char} (hconstant : word ∉ constants) (hnumber : Number.isNumeric word) :
      Denoted word (.number (String.ofList word))
  | path {word : List Char} {line : Nat} {p : Path} (hconstant : word ∉ constants)
      (hnumber : ¬ Number.isNumeric word) (hpath : Path.parse line word = .ok p) :
      Denoted word (.path p)

/-- The text of an operand: a text between two quotation marks that are not in it, or a word that
does not start with such a mark and has neither blanks nor characters of operators. -/
inductive Spelled : List Char → Operand → Prop where
  | quoted {quotation : Char} {body : List Char}
      (hquotation : quotation = '\x27' ∨ quotation = '\x22') (hbody : quotation ∉ body) :
      Spelled (quotation :: (body ++ [quotation])) (.str (String.ofList body))
  | word {first : Char} {rest : List Char} {operand : Operand}
      (hfirst : ¬ (first = '\x27' ∨ first = '\x22'))
      (hchars : ∀ c ∈ first :: rest, ¬ Comparison.endsWord c)
      (hdenoted : Denoted (first :: rest) operand) : Spelled (first :: rest) operand

/-- An operand starts with a character that neither separates words nor is one of an operator. -/
theorem Spelled.exists_cons {text : List Char} {operand : Operand} (h : Spelled text operand) :
    ∃ first rest, text = first :: rest ∧ ¬ Comparison.endsWord first := by
  cases h with
  | quoted hquotation _ =>
    refine ⟨_, _, rfl, ?_⟩
    rcases hquotation with rfl | rfl
    · decide
    · decide
  | word _ hchars _ => exact ⟨_, _, rfl, hchars _ (.head _)⟩

theorem Spelled.not_isBlank {text : List Char} {operand : Operand} (h : Spelled text operand) :
    ∀ c ∈ text.head?, ¬ isBlank c := by
  obtain ⟨first, rest, rfl, hends⟩ := h.exists_cons
  rintro c hc hblank
  obtain rfl := Option.some.inj hc
  exact hends (by simp [Comparison.endsWord, hblank])

end Operand

open Operand (Denoted Spelled)

/-! ### Comparisons -/

namespace Comparison

/-- The text of a comparison by its parts: blanks, an operand, blanks, an operator, blanks, an
operand, and blanks. -/
structure Layout where
  lead : List Char
  left : List Char
  behindLeft : List Char
  op : Operator
  behindOp : List Char
  right : List Char
  trail : List Char

/-- The parts one after another. -/
def Layout.text (l : Layout) : List Char :=
  l.lead ++ l.left ++ (l.behindLeft ++ l.op.symbol ++ (l.behindOp ++ l.right ++ l.trail))

/-- The parts write a comparison. Any of the blanks may be left out. -/
structure Layout.Spells (l : Layout) (c : Comparison) : Prop where
  lead : IsGap l.lead
  left : Spelled l.left c.left
  behindLeft : IsGap l.behindLeft
  op : l.op = c.op
  behindOp : IsGap l.behindOp
  right : Spelled l.right c.right
  trail : IsGap l.trail

end Comparison

/-! ### Readers -/

theorem Text.trim_eq_nil_iff {text : List Char} : trim text = [] ↔ IsGap text := by
  constructor
  · intro h c hc
    obtain ⟨trail, htrail, hblank⟩ := exists_eq_trimEnd_append (trimStart text)
    rw [show trimEnd (trimStart text) = [] from h, List.nil_append] at htrail
    rw [← List.takeWhile_append_dropWhile (p := isBlank) (l := text)] at hc
    rcases List.mem_append.1 hc with hlead | hrest
    · exact List.all_eq_true.1 List.all_takeWhile c hlead
    · exact hblank c (htrail ▸ hrest)
  · intro h
    have hends := trim_append h (List.forall_mem_nil _) []
    rwa [List.append_nil, List.append_nil] at hends

namespace Comparison

variable {line : Nat} {text word gap rest : List Char} {operand : Operand} {op : Operator}
  {c : Comparison}

/-- The blanks in front of a text are passed over. -/
theorem trimStart_append (hgap : IsGap gap) (htext : ∀ c ∈ text.head?, ¬ isBlank c) :
    trimStart (gap ++ text) = text :=
  (span_append hgap htext).2

theorem wordOperand_eq_ok : wordOperand line word = .ok operand ↔ Denoted word operand := by
  constructor
  · intro h
    unfold wordOperand at h
    split at h
    · next htruth =>
      obtain rfl := Except.ok.inj h
      exact .truth htruth
    · next htruth =>
      split at h
      · next hnull =>
        subst hnull
        obtain rfl := Except.ok.inj h
        exact .null
      · next hnull =>
        have hconstant : word ∉ Operand.constants := by
          simp only [Operand.constants, List.mem_cons, List.not_mem_nil, or_false, ← or_assoc]
          exact not_or.2 ⟨htruth, hnull⟩
        split at h
        · next hnumber =>
          obtain rfl := Except.ok.inj h
          exact .number hconstant hnumber
        · next hnumber =>
          obtain ⟨p, hpath, rfl⟩ := map_eq_ok.1 h
          exact .path hconstant hnumber hpath
  · have hconstants (hconstant : word ∉ Operand.constants) :
        ¬ (word = ['t', 'r', 'u', 'e'] ∨ word = ['f', 'a', 'l', 's', 'e']) ∧
          word ≠ ['n', 'u', 'l', 'l'] := by
      simpa [Operand.constants, not_or, and_assoc] using hconstant
    intro h
    unfold wordOperand
    cases h with
    | truth htruth => rw [if_pos htruth]
    | null => rfl
    | number hconstant hnumber =>
      obtain ⟨htruth, hnull⟩ := hconstants hconstant
      rw [if_neg htruth, if_neg hnull, if_pos hnumber]
    | path hconstant hnumber hpath =>
      obtain ⟨htruth, hnull⟩ := hconstants hconstant
      rw [if_neg htruth, if_neg hnull, if_neg hnumber]
      exact map_eq_ok.2 ⟨_, Path.parse_eq_ok.2 (Path.parse_eq_ok.1 hpath), rfl⟩

theorem exists_eq_append_trimStart (text : List Char) :
    ∃ gap, text = gap ++ trimStart text ∧ IsGap gap :=
  ⟨text.takeWhile isBlank, List.takeWhile_append_dropWhile.symm,
    List.all_eq_true.1 List.all_takeWhile⟩

/-- What is read is an operand, behind blanks. -/
theorem exists_of_readOperand (h : readOperand line text = .ok (operand, rest)) :
    ∃ gap word, text = gap ++ word ++ rest ∧ IsGap gap ∧ Spelled word operand := by
  obtain ⟨gap, htext, hgap⟩ := exists_eq_append_trimStart text
  unfold readOperand at h
  split at h
  · cases h
  · next first behind htrim =>
    rw [htrim] at htext
    split at h
    · next hquotation =>
      split at h
      · cases h
      · next body rest' hsplit =>
        obtain ⟨rfl, rfl⟩ := Prod.mk.inj (Except.ok.inj h)
        have hbody := not_isInfix_of_splitAtMark? (List.cons_ne_nil _ _) hsplit
        rw [List.singleton_infix_iff] at hbody
        refine ⟨gap, first :: (body ++ [first]), ?_, hgap, .quoted hquotation hbody⟩
        rw [htext, eq_append_of_splitAtMark? hsplit]
        simp
    · next hquotation =>
      dsimp only at h
      split at h
      · cases h
      · next hne =>
        obtain ⟨operand', hword, h⟩ := bind_eq_ok.1 h
        obtain ⟨rfl, rfl⟩ := Prod.mk.inj (Except.ok.inj h)
        have hfirst : (!endsWord first) = true := by
          by_contra hfirst
          exact hne (List.takeWhile_cons_of_neg hfirst)
        have htake : (first :: behind).takeWhile (fun c => !endsWord c) =
            first :: behind.takeWhile fun c => !endsWord c := List.takeWhile_cons_of_pos hfirst
        have hchars : ∀ c ∈ (first :: behind).takeWhile fun c => !endsWord c, ¬ endsWord c := by
          intro c hc
          simpa using List.all_eq_true.1 List.all_takeWhile c hc
        have hdenoted := wordOperand_eq_ok.1 hword
        refine ⟨gap, (first :: behind).takeWhile fun c => !endsWord c, ?_, hgap, ?_⟩
        · rw [htext, List.append_assoc, List.takeWhile_append_dropWhile]
        · rw [htake] at hchars hdenoted ⊢
          exact .word hquotation hchars hdenoted

/-- An operand is read, whatever blanks stand in front of it and whatever follows that ends a
word. -/
theorem readOperand_append (hgap : IsGap gap) (hword : Spelled word operand)
    (hrest : ∀ c ∈ rest.head?, endsWord c) (line : Nat) :
    readOperand line (gap ++ word ++ rest) = .ok (operand, rest) := by
  have htrim : trimStart (gap ++ word ++ rest) = word ++ rest := by
    rw [List.append_assoc]
    refine trimStart_append hgap ?_
    obtain ⟨first, behind, rfl, -⟩ := hword.exists_cons
    exact hword.not_isBlank
  unfold readOperand
  rw [htrim]
  cases hword with
  | @quoted quotation body hquotation hbody =>
    have hsplit : splitAtMark? [quotation] (body ++ [quotation] ++ rest) = some (body, rest) := by
      refine (splitAtMark?_eq_some_iff (List.cons_ne_nil _ _)).2 ⟨rfl, ?_⟩
      simpa [List.singleton_infix_iff] using hbody
    dsimp only [List.cons_append]
    rw [if_pos hquotation, hsplit]
  | word hquotation hchars hdenoted =>
    have hend : ∀ c ∈ rest.head?, ¬ (!endsWord c) := fun c hc => by simpa using hrest c hc
    obtain ⟨htake, hdrop⟩ := span_append (fun c hc => by simpa using hchars c hc) hend
    rw [List.cons_append] at htake hdrop
    dsimp only [List.cons_append]
    rw [if_neg hquotation, htake, hdrop, if_neg (List.cons_ne_nil _ _),
      wordOperand_eq_ok.2 hdenoted]
    rfl

theorem exists_of_readOperator (h : readOperator line text = .ok (op, rest)) :
    ∃ gap, text = gap ++ op.symbol ++ rest ∧ IsGap gap := by
  obtain ⟨gap, htext, hgap⟩ := exists_eq_append_trimStart text
  unfold readOperator at h
  dsimp only at h
  split at h
  · next found hfound =>
    obtain rfl := Except.ok.inj h
    obtain ⟨op', -, hop⟩ := List.exists_of_findSome?_eq_some hfound
    obtain ⟨rest', hdrop, hpair⟩ := Option.map_eq_some_iff.1 hop
    obtain ⟨rfl, rfl⟩ := Prod.mk.inj hpair
    refine ⟨gap, ?_, hgap⟩
    rw [List.append_assoc, ← dropMark?_eq_some.1 hdrop, ← htext]
  · cases h

/-- An operator is read, unless what follows could be its second character. -/
theorem readOperator_append (hgap : IsGap gap) (hrest : rest.head? ≠ some '=') (op : Operator)
    (line : Nat) : readOperator line (gap ++ op.symbol ++ rest) = .ok (op, rest) := by
  have htrim : trimStart (gap ++ op.symbol ++ rest) = op.symbol ++ rest := by
    rw [List.append_assoc]
    refine trimStart_append hgap ?_
    cases op <;> rintro c hc <;> obtain rfl := Option.some.inj hc <;> decide
  have hequals : dropMark? ['='] rest = none := by
    rw [dropMark?_eq_none]
    rintro ⟨behind, rfl⟩
    exact hrest rfl
  unfold readOperator
  dsimp only
  rw [htrim]
  cases op with
  | eq => rfl
  | ne => rfl
  | le => rfl
  | ge => rfl
  | lt => simp [Operator.all, Operator.symbol, dropMark?, hequals]
  | gt => simp [Operator.all, Operator.symbol, dropMark?, hequals]

/-! ### The whole text -/

namespace Layout

variable {l l' : Layout}

theorem endsWord_of_isGap (hgap : IsGap gap) : ∀ c ∈ gap.head?, endsWord c := by
  intro c hc
  simp [endsWord, hgap c (List.mem_of_mem_head? hc)]

/-- A word ends where an operator begins, behind blanks or not. -/
theorem endsWord_of_symbol (hgap : IsGap gap) (op : Operator) (rest : List Char) :
    ∀ c ∈ (gap ++ op.symbol ++ rest).head?, endsWord c := by
  cases gap with
  | nil => cases op <;> rintro c hc <;> obtain rfl := Option.some.inj hc <;> decide
  | cons b gap =>
    intro c hc
    exact endsWord_of_isGap hgap c hc

/-- No operand begins like the second character of an operator. -/
theorem head?_ne_equals (hgap : IsGap gap) (hword : Spelled word operand) (rest : List Char) :
    (gap ++ word ++ rest).head? ≠ some '=' := by
  obtain ⟨first, behind, rfl, hends⟩ := hword.exists_cons
  cases gap with
  | nil =>
    intro h
    obtain rfl : first = '=' := Option.some.inj h
    exact hends (by decide)
  | cons b gap =>
    intro h
    obtain rfl : b = '=' := Option.some.inj h
    exact absurd (hgap '=' (.head _)) (by decide)

/-- The three readers take off the parts of a layout one after another. -/
theorem Spells.readers (h : l.Spells c) (line : Nat) :
    readOperand line l.text =
        .ok (c.left, l.behindLeft ++ l.op.symbol ++ (l.behindOp ++ l.right ++ l.trail)) ∧
      readOperator line (l.behindLeft ++ l.op.symbol ++ (l.behindOp ++ l.right ++ l.trail)) =
        .ok (l.op, l.behindOp ++ l.right ++ l.trail) ∧
      readOperand line (l.behindOp ++ l.right ++ l.trail) = .ok (c.right, l.trail) :=
  ⟨readOperand_append h.lead h.left (endsWord_of_symbol h.behindLeft _ _) line,
    readOperator_append h.behindLeft (head?_ne_equals h.behindOp h.right _) _ line,
    readOperand_append h.behindOp h.right (endsWord_of_isGap h.trail) line⟩

theorem Spells.parse (h : l.Spells c) (line : Nat) : Comparison.parse line l.text = .ok c := by
  obtain ⟨hleft, hop, hright⟩ := h.readers line
  have htrail : trim l.trail = [] := trim_eq_nil_iff.2 h.trail
  refine bind_eq_ok.2 ⟨_, hleft, bind_eq_ok.2 ⟨_, hop, bind_eq_ok.2 ⟨_, hright, ?_⟩⟩⟩
  dsimp only
  rw [if_pos htrail, h.op]
  rfl

end Layout

/-- What is read has a layout. -/
theorem exists_of_parse (h : Comparison.parse line text = .ok c) :
    ∃ l : Layout, l.text = text ∧ l.Spells c := by
  simp only [Comparison.parse, bind_eq_ok, Prod.exists] at h
  obtain ⟨left, behindLeft, hleft, op, behindOp, hop, right, behindRight, hright, h⟩ := h
  obtain ⟨lead, leftWord, rfl, hlead, hleftWord⟩ := exists_of_readOperand hleft
  obtain ⟨leftGap, rfl, hleftGap⟩ := exists_of_readOperator hop
  obtain ⟨opGap, rightWord, rfl, hopGap, hrightWord⟩ := exists_of_readOperand hright
  split at h
  · next htrail =>
    obtain rfl := Except.ok.inj h
    exact ⟨⟨lead, leftWord, leftGap, op, opGap, rightWord, behindRight⟩, rfl,
      hlead, hleftWord, hleftGap, rfl, hopGap, hrightWord, trim_eq_nil_iff.1 htrail⟩
  · cases h

/-- Where an operand with blanks in front of it begins, and what stands behind it, can be seen from
the text, given what is left of it. -/
theorem split_unique {gap' word' : List Char} {operand' : Operand} (hgap : IsGap gap)
    (hgap' : IsGap gap') (hword : Spelled word operand) (hword' : Spelled word' operand')
    (h : gap ++ word ++ rest = gap' ++ word' ++ rest) : gap = gap' ∧ word = word' := by
  have hboth : gap ++ word = gap' ++ word' := List.append_cancel_right h
  have htrim := congrArg trimStart hboth
  rw [trimStart_append hgap hword.not_isBlank, trimStart_append hgap' hword'.not_isBlank] at htrim
  subst htrim
  exact ⟨List.append_cancel_right hboth, rfl⟩

/-- A text has no two layouts: what each of the readers leaves is the same for both. -/
theorem Layout.unique {l l' : Layout} {c c' : Comparison} (h : l.Spells c) (h' : l'.Spells c')
    (htext : l'.text = l.text) : l' = l ∧ c' = c := by
  obtain ⟨hleft, hop, hright⟩ := h.readers 0
  obtain ⟨hleft', hop', hright'⟩ := h'.readers 0
  rw [htext, hleft] at hleft'
  obtain ⟨-, hbehindLeft⟩ := Prod.mk.inj (Except.ok.inj hleft')
  rw [← hbehindLeft, hop] at hop'
  obtain ⟨hsymbol, hbehindOp⟩ := Prod.mk.inj (Except.ok.inj hop')
  rw [← hbehindOp, hright] at hright'
  obtain ⟨-, htrail⟩ := Prod.mk.inj (Except.ok.inj hright')
  have hcomparison : c' = c := by
    have hparse := h'.parse 0
    rw [htext, h.parse 0] at hparse
    exact (Except.ok.inj hparse).symm
  obtain ⟨lead, left, behindLeft, op, behindOp, right, trail⟩ := l
  obtain ⟨lead', left', behindLeft', op', behindOp', right', trail'⟩ := l'
  dsimp only at *
  subst hsymbol htrail
  -- From the end to the front, each part is what remains when the parts behind it are cancelled.
  obtain ⟨rfl, rfl⟩ := split_unique h.behindOp h'.behindOp h.right h'.right hbehindOp
  obtain rfl := List.append_cancel_right (List.append_cancel_right hbehindLeft)
  obtain ⟨rfl, rfl⟩ := split_unique h.lead h'.lead h.left h'.left htext.symm
  exact ⟨rfl, hcomparison⟩

/-- **The grammar of comparisons.** A text is read as a comparison exactly if it is laid out as the
grammar says and its parts write that comparison. It can be laid out in one way at most, so the
comparison is determined by it; and if it cannot be laid out at all, reading it fails with a fault
on the line that is given. -/
theorem parse_layout (line : Nat) (text : List Char) :
    (∀ c, Comparison.parse line text = .ok c ↔ ∃ l : Layout, l.text = text ∧ l.Spells c) ∧
    (∀ (l l' : Layout) (c c' : Comparison), l.text = text → l'.text = text → l.Spells c →
      l'.Spells c' → l' = l ∧ c' = c) ∧
    ∀ e, Comparison.parse line text = .error e → ∃ fault, e = .parse line fault := by
  refine ⟨fun c => ⟨exists_of_parse, ?_⟩, fun l l' c c' htext htext' h h' => ?_,
    failsAt_parse line text⟩
  · rintro ⟨l, rfl, h⟩
    exact h.parse line
  · exact Layout.unique h h' (htext'.trans htext.symm)

/-- Without a blank in front of the operator, and with an operator between quotation marks; a word
more cannot be laid out. -/
theorem parse_layout_tight :
    let text := "@../n[0:1]<= '<' ".toList
    let p : Path := ⟨"@../n[0:1]", true, 1, ["n"], some ⟨0, 1⟩⟩
    let c : Comparison := ⟨.path p, .le, .str "<"⟩
    let l : Layout := ⟨[], "@../n[0:1]".toList, [], .le, [' '], "'<'".toList, [' ']⟩
    (l.text = text ∧ l.Spells c ∧ Comparison.parse 7 text = .ok c ∧
      ∀ (l' : Layout) (c' : Comparison), l'.text = text → l'.Spells c' → l' = l ∧ c' = c) ∧
    ∃ fault, Comparison.parse 7 "n<1 m".toList = .error (.parse 7 fault) := by
  intro text p c l
  have hpath : Path.parse 7 "@../n[0:1]".toList = .ok p := toOption_eq_some.1 (by decide +kernel)
  have hall : ("@../n[0:1]".toList.all fun c => !endsWord c) = true := by decide +kernel
  have hleft : Spelled "@../n[0:1]".toList (.path p) :=
    .word (by decide) (fun c hc => by simpa using List.all_eq_true.1 hall c hc)
      (.path (by decide) (by decide +kernel) hpath)
  have hright : Spelled "'<'".toList (.str "<") :=
    Spelled.quoted (.inl rfl) (by decide : '\x27' ∉ ['<'])
  have hl : l.Spells c := ⟨by decide, hleft, by decide, rfl, by decide, hright, by decide⟩
  have htext : l.text = text := by decide
  obtain ⟨hread, hunique, -⟩ := parse_layout 7 text
  refine ⟨⟨htext, hl, (hread c).2 ⟨l, htext, hl⟩, fun l' c' htext' hl' => ?_⟩, ?_⟩
  · exact hunique l l' c c' htext htext' hl hl'
  · have hnone : (Comparison.parse 7 "n<1 m".toList).toOption = none := by decide +kernel
    cases hparse : Comparison.parse 7 "n<1 m".toList with
    | ok c =>
      rw [hparse] at hnone
      cases hnone
    | error e =>
      obtain ⟨fault, rfl⟩ := (parse_layout 7 _).2.2 e hparse
      exact ⟨fault, rfl⟩

end Comparison

end Stencil
