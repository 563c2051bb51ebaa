import Mathlib.Data.List.Basic
import Stencil.Number.Numeral
import Stencil.Proofs.Number.Numerals

/-!
# The grammar of numerals

What is read as a numeral is a sign or none, digits with a point or without one, and a power of ten
or none. Every numeral is one of the texts that stand for a double; the others are the names of the
infinities and of what is no number.

## Main definitions

* `Number.IsMantissa`, `Number.IsPower` - the parts of a numeral behind the sign
* `Number.IsNumeral` - the texts of numerals
* `Number.afterMantissa?` - what follows a mantissa
* `Number.IsDoubleText` - the texts that stand for a double
* `Number.readDouble?` - the double that a text stands for

Main statements: `Number.Numeral.isSome_read?_iff`, `Number.isSome_readDouble?_iff`.
-/

namespace Stencil.Number

variable {text sign rest ds power : List Char} {c d : Char}

/-! ### Numerals -/

/-- A sign or none. -/
def IsSign (sign : List Char) : Prop :=
  sign ∈ [[], ['+'], ['-']]

/-- Digits, with a point and further digits behind them or not, or a point with digits behind it. -/
inductive IsMantissa : List Char → Prop where
  | whole {ds : List Char} (hds : isDigits ds = true) : IsMantissa ds
  | point {ds fs : List Char} (hds : isDigits ds = true) (hfs : ∀ c ∈ fs, isDigit c = true) :
      IsMantissa (ds ++ '.' :: fs)
  | fraction {fs : List Char} (hfs : isDigits fs = true) : IsMantissa ('.' :: fs)

/-- A power of ten or none: its mark, a sign or none, and digits. -/
inductive IsPower : List Char → Prop where
  | none : IsPower []
  | power {mark : Char} {sign ds : List Char} (hmark : mark = 'e' ∨ mark = 'E')
      (hsign : IsSign sign) (hds : isDigits ds = true) : IsPower (mark :: (sign ++ ds))

/-- The texts of numerals. -/
inductive IsNumeral : List Char → Prop where
  | numeral {sign mantissa power : List Char} (hsign : IsSign sign)
      (hmantissa : IsMantissa mantissa) (hpower : IsPower power) :
      IsNumeral (sign ++ mantissa ++ power)

/-! ### Doubles -/

/-- The names of the infinities and of what is no number. -/
def doubleNames : List (List Char) :=
  [['i', 'n', 'f'], ['i', 'n', 'f', 'i', 'n', 'i', 't', 'y'], ['n', 'a', 'n']]

/-- Digits with at most one point in front of them, among them or behind them. -/
inductive IsPointed : List Char → Prop where
  | digits {ds : List Char} (hds : isDigits ds = true) : IsPointed ds
  | front {ds fs : List Char} (hds : isDigits ds = true) (hfs : ∀ c ∈ fs, isDigit c = true) :
      IsPointed (ds ++ '.' :: fs)
  | behind {ds fs : List Char} (hds : ∀ c ∈ ds, isDigit c = true) (hfs : isDigits fs = true) :
      IsPointed (ds ++ '.' :: fs)

/-- The texts in small letters that stand for a double: behind a sign or none a name, or digits with
a power of ten or none. -/
inductive IsDoubleForm : List Char → Prop where
  | name {sign word : List Char} (hsign : IsSign sign) (hword : word ∈ doubleNames) :
      IsDoubleForm (sign ++ word)
  | number {sign digits : List Char} (hsign : IsSign sign) (hdigits : IsPointed digits) :
      IsDoubleForm (sign ++ digits)
  | power {sign digits sign' ds : List Char} (hsign : IsSign sign) (hdigits : IsPointed digits)
      (hsign' : IsSign sign') (hds : isDigits ds = true) :
      IsDoubleForm (sign ++ digits ++ 'e' :: (sign' ++ ds))

/-- The texts that stand for a double. Capital letters count as small ones. -/
def IsDoubleText (text : List Char) : Prop :=
  IsDoubleForm (text.map Char.toLower)

/-- The double of a name behind a sign or none. -/
def readDoubleName? (text : List Char) : Option Float :=
  let (negative, word) := takeSign (text.map Char.toLower)
  if word = ['n', 'a', 'n'] then some (if negative then -nan else nan)
  else if word ∈ doubleNames then some (infinity negative)
  else none

/-- The double that a text stands for: the nearest one to the number that it writes, or the one that
it names. -/
def readDouble? (text : List Char) : Option Float :=
  match Numeral.read? text with
  | some n => some n.toFloat
  | none => readDoubleName? text

/-! ### Signs and digits -/

theorem exists_sign (text : List Char) : ∃ sign, IsSign sign ∧ text = sign ++ (takeSign text).2 := by
  unfold takeSign
  split
  · exact ⟨['+'], by simp [IsSign], rfl⟩
  · exact ⟨['-'], by simp [IsSign], rfl⟩
  · exact ⟨[], by simp [IsSign], rfl⟩

/-- A sign is taken off, and no further one. -/
theorem takeSign_append (hsign : IsSign sign) (hrest : ∀ c ∈ rest.head?, ¬ IsSign [c]) :
    (takeSign (sign ++ rest)).2 = rest := by
  simp only [IsSign, List.mem_cons, List.not_mem_nil, or_false] at hsign
  rcases hsign with rfl | rfl | rfl
  · rw [List.nil_append]
    unfold takeSign
    split
    · exact absurd (by simp [IsSign]) (hrest '+' rfl)
    · exact absurd (by simp [IsSign]) (hrest '-' rfl)
    · rfl
  · rfl
  · rfl

theorem isDigits_iff : isDigits ds = true ↔ ds ≠ [] ∧ ∀ c ∈ ds, isDigit c = true := by
  rw [isDigits, Bool.and_eq_true, List.all_eq_true, Bool.not_eq_true', List.isEmpty_eq_false_iff]

theorem not_isSign_of_isDigit (hc : isDigit c = true) : ¬ IsSign [c] := by
  intro h
  simp only [IsSign, List.mem_cons, List.not_mem_nil, or_false, List.cons.injEq, and_true] at h
  rcases h with h | rfl | rfl
  · cases h
  · exact absurd hc (by decide)
  · exact absurd hc (by decide)

theorem isDigits_takeWhile (h : text.takeWhile isDigit ≠ []) :
    isDigits (text.takeWhile isDigit) = true :=
  isDigits_iff.2 ⟨h, List.all_eq_true.1 List.all_takeWhile⟩

/-! ### Reading numerals -/

/-- What follows the digits in front of a text and the point among them; `none` if there are none. -/
def afterMantissa? (text : List Char) : Option (List Char) :=
  if (text.takeWhile isDigit).isEmpty && (takeFraction (text.dropWhile isDigit)).1.isEmpty then none
  else some (takeFraction (text.dropWhile isDigit)).2

/-- A mantissa and a power of ten are taken off one after the other, behind the sign. -/
theorem Numeral.isSome_read? (text : List Char) :
    (read? text).isSome =
      (afterMantissa? (takeSign text).2).any fun rest => (readExponent? rest).isSome := by
  rw [read?, afterMantissa?]
  dsimp only
  split
  · rfl
  · rw [Option.isSome_map]
    rfl

/-- What is taken off is a mantissa. -/
theorem exists_of_afterMantissa? (h : afterMantissa? text = some rest) :
    ∃ mantissa, IsMantissa mantissa ∧ text = mantissa ++ rest := by
  have htext := (List.takeWhile_append_dropWhile (p := isDigit) (l := text)).symm
  have hwhole (hne : text.takeWhile isDigit ≠ []) := isDigits_takeWhile hne
  unfold afterMantissa? at h
  generalize text.takeWhile isDigit = whole at *
  generalize text.dropWhile isDigit = behind at *
  subst htext
  split at h
  · cases h
  · next hempty =>
    obtain rfl := Option.some.inj h
    unfold takeFraction at hempty ⊢
    split at hempty
    · next fraction =>
      have hfraction := (List.takeWhile_append_dropWhile (p := isDigit) (l := fraction)).symm
      by_cases hne : whole = []
      · have hds : isDigits (fraction.takeWhile isDigit) = true :=
          isDigits_takeWhile (by simpa [hne] using hempty)
        refine ⟨_, .fraction hds, ?_⟩
        rw [hne, List.nil_append, List.cons_append, ← hfraction]
      · refine ⟨whole ++ '.' :: fraction.takeWhile isDigit,
          .point (hwhole hne) (List.all_eq_true.1 List.all_takeWhile), ?_⟩
        rw [List.append_assoc, List.cons_append, ← hfraction]
    · exact ⟨whole, .whole (hwhole (by simpa using hempty)), rfl⟩

/-- A mantissa is taken off in front of anything that does not continue it. -/
theorem afterMantissa?_append {mantissa : List Char} (h : IsMantissa mantissa)
    (hrest : ∀ c ∈ rest.head?, ¬ isDigit c = true ∧ c ≠ '.') :
    afterMantissa? (mantissa ++ rest) = some rest := by
  have hfraction {fs : List Char} (hfs : ∀ c ∈ fs, isDigit c = true) :
      takeFraction ('.' :: (fs ++ rest)) = (fs, rest) := by
    obtain ⟨htake, hdrop⟩ := Text.span_append hfs fun c hc => (hrest c hc).1
    rw [takeFraction, htake, hdrop]
  have hpoint {text : List Char} : ∀ c ∈ ('.' :: text).head?, ¬ isDigit c = true := by
    rintro c hc
    obtain rfl := Option.some.inj hc
    decide
  unfold afterMantissa?
  cases h with
  | whole hds =>
    obtain ⟨hne, hds⟩ := isDigits_iff.1 hds
    obtain ⟨htake, hdrop⟩ := Text.span_append hds fun c hc => (hrest c hc).1
    have hnone : takeFraction rest = ([], rest) := by
      unfold takeFraction
      split
      · exact absurd rfl (hrest '.' rfl).2
      · rfl
    rw [htake, hdrop, hnone]
    simp [hne]
  | @point ds fs hds hfs =>
    obtain ⟨hne, hds⟩ := isDigits_iff.1 hds
    obtain ⟨htake, hdrop⟩ := @Text.span_append _ _ ('.' :: (fs ++ rest)) hds hpoint
    rw [List.append_assoc, List.cons_append, htake, hdrop, hfraction hfs]
    simp [hne]
  | @fraction fs hfs =>
    obtain ⟨hne, hfs⟩ := isDigits_iff.1 hfs
    obtain ⟨htake, hdrop⟩ := @Text.span_append _ [] _ (by simp) (@hpoint (fs ++ rest))
    rw [List.nil_append] at htake hdrop
    rw [List.cons_append, htake, hdrop, hfraction hfs]
    simp [hne]

theorem isSome_readExponent?_iff : (readExponent? power).isSome = true ↔ IsPower power := by
  constructor
  · intro h
    unfold readExponent? at h
    split at h
    · exact .none
    · next mark rest =>
      split at h
      · next hmark =>
        dsimp only at h
        split at h
        · next hds =>
          obtain ⟨sign, hsign, hrest⟩ := exists_sign rest
          rw [hrest]
          exact .power hmark hsign hds
        · cases h
      · cases h
  · intro h
    cases h with
    | none => rfl
    | @power mark sign ds hmark hsign hds =>
      have hrest : (takeSign (sign ++ ds)).2 = ds := by
        refine takeSign_append hsign fun c hc => not_isSign_of_isDigit ?_
        exact (isDigits_iff.1 hds).2 c (List.mem_of_mem_head? hc)
      rw [readExponent?, if_pos hmark]
      dsimp only
      rw [hrest, if_pos hds]
      rfl

theorem IsPower.head? (h : IsPower power) : ∀ c ∈ power.head?, ¬ isDigit c = true ∧ c ≠ '.' := by
  cases h with
  | none => simp
  | power hmark =>
    intro c hc
    obtain rfl := Option.some.inj hc
    rcases hmark with rfl | rfl <;> decide

theorem IsMantissa.head? {mantissa : List Char} (h : IsMantissa mantissa) (rest : List Char) :
    ∀ c ∈ (mantissa ++ rest).head?, ¬ IsSign [c] := by
  have hdigits {ds : List Char} (hds : isDigits ds = true) (rest : List Char) :
      ∀ c ∈ (ds ++ rest).head?, ¬ IsSign [c] := by
    obtain ⟨hne, hds⟩ := isDigits_iff.1 hds
    rw [List.head?_append_of_ne_nil _ hne]
    exact fun c hc => not_isSign_of_isDigit (hds c (List.mem_of_mem_head? hc))
  cases h with
  | whole hds => exact hdigits hds rest
  | point hds hfs =>
    rw [List.append_assoc]
    exact hdigits hds _
  | fraction hfs => simp [IsSign]

/-- The texts that are read as numerals are those of the grammar. -/
theorem Numeral.isSome_read?_iff : (read? text).isSome = true ↔ IsNumeral text := by
  rw [isSome_read?, Option.any_eq_true]
  constructor
  · rintro ⟨power, hmantissa, hpower⟩
    obtain ⟨sign, hsign, htext⟩ := exists_sign text
    obtain ⟨mantissa, hmantissa, hrest⟩ := exists_of_afterMantissa? hmantissa
    rw [htext, hrest, ← List.append_assoc]
    exact .numeral hsign hmantissa (isSome_readExponent?_iff.1 hpower)
  · rintro ⟨hsign, hmantissa, hpower⟩
    refine ⟨_, ?_, isSome_readExponent?_iff.2 hpower⟩
    rw [List.append_assoc, takeSign_append hsign (hmantissa.head? _)]
    exact afterMantissa?_append hmantissa hpower.head?

/-! ### Small letters -/

/-- Only the capital letters are changed, and become letters that stand behind all of them. -/
theorem toLower_cases (c : Char) :
    c.toLower = c ∨ 65 ≤ c.toNat ∧ c.toLower.toNat = c.toNat + 32 := by
  unfold Char.toLower
  split
  · next h =>
    have hlow : 65 ≤ c.val.toNat := h.1
    have hhigh : c.val.toNat ≤ 90 := h.2
    refine .inr ⟨hlow, ?_⟩
    have hadd : (c.val + 32).toNat = (c.val.toNat + 32) % 2 ^ 32 := UInt32.toNat_add _ _
    rw [Nat.mod_eq_of_lt (by omega)] at hadd
    exact hadd
  · exact .inl rfl

/-- A character in front of all letters. -/
theorem toLower_eq_iff (hd : d.toNat < 65) : c.toLower = d ↔ c = d := by
  rcases toLower_cases c with h | ⟨hletter, h⟩
  · rw [h]
  · constructor
    · rintro rfl
      omega
    · rintro rfl
      omega

theorem toLower_eq_e_iff : c.toLower = 'e' ↔ c = 'e' ∨ c = 'E' := by
  constructor
  · intro hc
    rcases toLower_cases c with h | ⟨-, h⟩
    · exact .inl (h.symm.trans hc)
    · rw [hc] at h
      have hE : c.toNat = 'E'.toNat := Nat.add_right_cancel h.symm
      exact .inr (Char.toNat_inj.1 hE)
  · rintro (rfl | rfl) <;> rfl

/-- A text without letters is the same in small letters, and no other text becomes it. -/
theorem map_toLower_eq_iff {form : List Char} (hform : ∀ d ∈ form, d.toNat < 65) :
    text.map Char.toLower = form ↔ text = form := by
  induction form generalizing text with
  | nil => exact List.map_eq_nil_iff
  | cons d form ih =>
    obtain ⟨hd, hform⟩ := List.forall_mem_cons.1 hform
    cases text with
    | nil => simp
    | cons c text => rw [List.map_cons, List.cons.injEq, List.cons.injEq, toLower_eq_iff hd, ih hform]

theorem lt_of_isDigit (hc : isDigit c = true) : c.toNat < 65 := by
  simp only [isDigit, Bool.and_eq_true, decide_eq_true_eq, Char.le_def] at hc
  have hhigh : c.toNat ≤ 57 := hc.2
  omega

theorem IsSign.lt (h : IsSign sign) : ∀ c ∈ sign, c.toNat < 65 := by
  simp only [IsSign, List.mem_cons, List.not_mem_nil, or_false] at h
  rcases h with rfl | rfl | rfl <;> simp

theorem isDigits_lt (h : isDigits ds = true) : ∀ c ∈ ds, c.toNat < 65 :=
  fun c hc => lt_of_isDigit ((isDigits_iff.1 h).2 c hc)

theorem IsMantissa.lt {mantissa : List Char} (h : IsMantissa mantissa) :
    ∀ c ∈ mantissa, c.toNat < 65 := by
  cases h with
  | whole hds => exact isDigits_lt hds
  | point hds hfs =>
    refine List.forall_mem_append.2 ⟨isDigits_lt hds, List.forall_mem_cons.2 ⟨by decide, ?_⟩⟩
    exact fun c hc => lt_of_isDigit (hfs c hc)
  | fraction hfs => exact List.forall_mem_cons.2 ⟨by decide, isDigits_lt hfs⟩

/-! ### Texts of doubles -/

/-- The digits of a double are those of a numeral. -/
theorem isPointed_iff : IsPointed ds ↔ IsMantissa ds := by
  constructor
  · rintro (hds | ⟨hds, hfs⟩ | @⟨ds, fs, hds, hfs⟩)
    · exact .whole hds
    · exact .point hds hfs
    · by_cases hne : ds = []
      · subst hne
        exact .fraction hfs
      · exact .point (isDigits_iff.2 ⟨hne, hds⟩) (isDigits_iff.1 hfs).2
  · rintro (hds | ⟨hds, hfs⟩ | hfs)
    · exact .digits hds
    · exact .front hds hfs
    · exact @IsPointed.behind [] _ (by simp) hfs

/-- Every numeral stands for a double. -/
theorem IsNumeral.isDoubleText (h : IsNumeral text) : IsDoubleText text := by
  obtain ⟨hsign, hmantissa, hpower⟩ := h
  unfold IsDoubleText
  rw [List.map_append, (map_toLower_eq_iff (List.forall_mem_append.2
    ⟨hsign.lt, hmantissa.lt⟩)).2 rfl]
  cases hpower with
  | none =>
    rw [List.map_nil, List.append_nil]
    exact .number hsign (isPointed_iff.2 hmantissa)
  | power hmark hsign' hds =>
    rw [List.map_cons, toLower_eq_e_iff.2 hmark, (map_toLower_eq_iff (List.forall_mem_append.2
      ⟨hsign'.lt, isDigits_lt hds⟩)).2 rfl]
    exact .power hsign (isPointed_iff.2 hmantissa) hsign' hds

/-- A text that stands for a double is a numeral or a name. -/
theorem IsDoubleText.isNumeral_or (h : IsDoubleText text) : IsNumeral text ∨
    ∃ sign word, IsSign sign ∧ word ∈ doubleNames ∧ text.map Char.toLower = sign ++ word := by
  unfold IsDoubleText at h
  generalize hform : text.map Char.toLower = form at h
  cases h with
  | name hsign hword => exact .inr ⟨_, _, hsign, hword, rfl⟩
  | number hsign hdigits =>
    have hmantissa := isPointed_iff.1 hdigits
    rw [map_toLower_eq_iff (List.forall_mem_append.2 ⟨hsign.lt, hmantissa.lt⟩)] at hform
    refine .inl ?_
    rw [hform, ← List.append_nil (_ ++ _)]
    exact .numeral hsign hmantissa .none
  | power hsign hdigits hsign' hds =>
    have hmantissa := isPointed_iff.1 hdigits
    obtain ⟨front, behind, rfl, hfront, hbehind⟩ := List.map_eq_append_iff.1 hform
    obtain ⟨mark, rest, rfl, hmark, hrest⟩ := List.map_eq_cons_iff.1 hbehind
    rw [map_toLower_eq_iff (List.forall_mem_append.2 ⟨hsign.lt, hmantissa.lt⟩)] at hfront
    rw [map_toLower_eq_iff (List.forall_mem_append.2 ⟨hsign'.lt, isDigits_lt hds⟩)] at hrest
    subst hfront hrest
    exact .inl (.numeral hsign hmantissa (.power (toLower_eq_e_iff.1 hmark) hsign' hds))

theorem isSome_readDoubleName?_iff : (readDoubleName? text).isSome = true ↔
    ∃ sign word, IsSign sign ∧ word ∈ doubleNames ∧ text.map Char.toLower = sign ++ word := by
  have hread : (readDoubleName? text).isSome = true ↔
      (takeSign (text.map Char.toLower)).2 ∈ doubleNames := by
    unfold readDoubleName?
    dsimp only
    split
    · next hname => simp [hname, doubleNames]
    · split
      · next hname => simp [hname]
      · next hname => simp [hname]
  rw [hread]
  constructor
  · intro hword
    obtain ⟨sign, hsign, htext⟩ := exists_sign (text.map Char.toLower)
    exact ⟨sign, _, hsign, hword, htext⟩
  · rintro ⟨sign, word, hsign, hword, htext⟩
    have hhead : ∀ word ∈ doubleNames, ∀ c ∈ word.head?, c ∉ ['+', '-'] := by
      simp [doubleNames]
    have htake : (takeSign (sign ++ word)).2 = word := by
      refine takeSign_append hsign fun c hc hc' => hhead word hword c hc ?_
      simpa [IsSign] using hc'
    rwa [htext, htake]

/-- The texts that are read as doubles are those that stand for one. -/
theorem isSome_readDouble?_iff : (readDouble? text).isSome = true ↔ IsDoubleText text := by
  have hread : (readDouble? text).isSome = true ↔
      (Numeral.read? text).isSome = true ∨ (readDoubleName? text).isSome = true := by
    unfold readDouble?
    cases Numeral.read? text <;> simp
  rw [hread, Numeral.isSome_read?_iff, isSome_readDoubleName?_iff]
  constructor
  · rintro (hnumeral | ⟨sign, word, hsign, hword, htext⟩)
    · exact hnumeral.isDoubleText
    · rw [IsDoubleText, htext]
      exact .name hsign hword
  · exact IsDoubleText.isNumeral_or

end Stencil.Number
