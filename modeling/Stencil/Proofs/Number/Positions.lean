import Mathlib.Data.List.TakeWhile
import Stencil.Proofs.Number.Grammar
import Stencil.Value

/-!
# Numerals by positions

A numeral can be found by a position that moves over the bytes of its text in UTF-8. A byte is read
only where there is one, so no position is ever outside of the text, and the outcome is that of
reading the characters of the text.

## Main definitions

* `Number.utf8` - the bytes of a text
* `Number.charAt?` - a byte of a text, or the failure to read outside of it
* `Number.behindSign`, `Number.behindDigits?`, `Number.behindFraction?` - how the position moves
* `Number.scanNumeral?` - whether the bytes of a text are those of a numeral

Main statements: `Number.scanNumeral?_eq`, `Number.isNumeric_syntax`.
-/

namespace Stencil.Number

/-- The bytes of a text in UTF-8. -/
def utf8 (text : List Char) : List UInt8 :=
  text.flatMap String.utf8EncodeChar

/-! ### Positions -/

/-- The byte at a position as a character; `none` if the position is outside of the text. -/
def charAt? (bytes : List UInt8) (i : Nat) : Option Char :=
  bytes[i]?.map Char.ofUInt8

/-- Whether a byte of a kind stands at a position. None does at the end of the text; in front of it
the byte is read, which fails outside of the text. -/
def standsAt? (kind : Char → Bool) (bytes : List UInt8) (i : Nat) : Option Bool :=
  if i < bytes.length then (charAt? bytes i).map kind else some false

/-- The position behind a sign or none. -/
def behindSign (bytes : List UInt8) (i : Nat) : Nat :=
  if charAt? bytes i = some '+' ∨ charAt? bytes i = some '-' then i + 1 else i

/-- The position behind digits. -/
def behindDigits? (bytes : List UInt8) (i : Nat) : Option Nat :=
  if i < bytes.length then
    (charAt? bytes i).bind fun c => if isDigit c then behindDigits? bytes (i + 1) else some i
  else some i
termination_by bytes.length - i

/-- The number of digits behind a point, and the position behind them; none if there is no point. -/
def behindFraction? (bytes : List UInt8) (i : Nat) : Option (Nat × Nat) := do
  let point ← standsAt? (· = '.') bytes i
  if point then
    let j ← behindDigits? bytes (i + 1)
    return (j - (i + 1), j)
  else return (0, i)

/-- Whether a power of ten or none is between a position and the end of the text. -/
def endsWithPower? (bytes : List UInt8) (i : Nat) : Option Bool := do
  let mark ← standsAt? (fun c => c = 'e' || c = 'E') bytes i
  if mark then
    let start := behindSign bytes (i + 1)
    let j ← behindDigits? bytes start
    return j ≠ start && j = bytes.length
  else return i = bytes.length

/-- Whether the bytes of a text are those of a numeral; `none` if a byte outside of the text has been
read. -/
def scanNumeral? (bytes : List UInt8) : Option Bool := do
  let start := behindSign bytes 0
  let i ← behindDigits? bytes start
  let (count, j) ← behindFraction? bytes i
  if i - start + count = 0 then return false
  else endsWithPower? bytes j

/-! ### What is left at a position -/

variable {bytes : List UInt8} {i : Nat}

/-- The characters behind a position, one for each byte. -/
def restAt (bytes : List UInt8) (i : Nat) : List Char :=
  (bytes.map Char.ofUInt8).drop i

theorem charAt?_eq (bytes : List UInt8) (i : Nat) : charAt? bytes i = (restAt bytes i).head? := by
  rw [charAt?, restAt, List.head?_drop, List.getElem?_map]

theorem restAt_eq_cons {c : Char} {rest : List Char} (h : restAt bytes i = c :: rest) :
    i < bytes.length ∧ restAt bytes (i + 1) = rest := by
  constructor
  · by_contra hle
    rw [restAt, List.drop_eq_nil_of_le (by rw [List.length_map]; omega)] at h
    cases h
  · rw [restAt, ← List.tail_drop, ← restAt, h, List.tail_cons]

theorem restAt_eq_nil_iff : restAt bytes i = [] ↔ bytes.length ≤ i := by
  rw [restAt, List.drop_eq_nil_iff, List.length_map]

theorem standsAt?_eq (kind : Char → Bool) (bytes : List UInt8) (i : Nat) :
    standsAt? kind bytes i = some ((restAt bytes i).head?.any kind) := by
  rw [standsAt?, charAt?_eq]
  cases hrest : restAt bytes i with
  | nil =>
    rw [if_neg (Nat.not_lt.2 (restAt_eq_nil_iff.1 hrest))]
    rfl
  | cons c rest =>
    rw [if_pos (restAt_eq_cons hrest).1]
    rfl

theorem behindSign_spec (hi : i ≤ bytes.length) :
    behindSign bytes i ≤ bytes.length ∧
      (takeSign (restAt bytes i)).2 = restAt bytes (behindSign bytes i) := by
  rw [behindSign, charAt?_eq]
  cases hrest : restAt bytes i with
  | nil => simp [takeSign, hi, hrest]
  | cons c rest =>
    obtain ⟨hlt, hnext⟩ := restAt_eq_cons hrest
    by_cases hsign : c = '+' ∨ c = '-'
    · rw [if_pos (by simpa using hsign), hnext]
      refine ⟨hlt, ?_⟩
      rcases hsign with rfl | rfl <;> rfl
    · rw [if_neg (by simpa using hsign), hrest]
      refine ⟨hi, ?_⟩
      unfold takeSign
      split <;> simp_all

/-- The position moves over the digits and no further. -/
theorem behindDigits?_spec (hi : i ≤ bytes.length) :
    ∃ j, behindDigits? bytes i = some j ∧ j ≤ bytes.length ∧
      j = i + ((restAt bytes i).takeWhile isDigit).length ∧
      (restAt bytes i).dropWhile isDigit = restAt bytes j := by
  fun_induction behindDigits? bytes i with
  | case1 i hlt ih =>
    rw [charAt?_eq]
    cases hrest : restAt bytes i with
    | nil => exact absurd hlt (Nat.not_lt.2 (restAt_eq_nil_iff.1 hrest))
    | cons c rest =>
      rw [List.head?_cons, Option.bind_some]
      by_cases hc : isDigit c = true
      · obtain ⟨j, hj, hle, hlength, hdrop⟩ := ih hlt
        rw [(restAt_eq_cons hrest).2] at hlength hdrop
        refine ⟨j, by rw [if_pos hc, hj], hle, ?_, ?_⟩
        · rw [List.takeWhile_cons_of_pos hc, List.length_cons]
          omega
        · rw [List.dropWhile_cons_of_pos hc, hdrop]
      · refine ⟨i, by rw [if_neg hc], hi, ?_, ?_⟩
        · rw [List.takeWhile_cons_of_neg hc]
          rfl
        · rw [List.dropWhile_cons_of_neg hc, hrest]
  | case2 i hge =>
    have hrest : restAt bytes i = [] := restAt_eq_nil_iff.2 (Nat.not_lt.1 hge)
    exact ⟨i, rfl, hi, by rw [hrest]; rfl, by rw [hrest]; rfl⟩

/-- The position moves over a point and the digits behind it. -/
theorem behindFraction?_spec (hi : i ≤ bytes.length) :
    ∃ count j, behindFraction? bytes i = some (count, j) ∧ j ≤ bytes.length ∧
      count = (takeFraction (restAt bytes i)).1.length ∧
      (takeFraction (restAt bytes i)).2 = restAt bytes j := by
  rw [behindFraction?, standsAt?_eq, Option.bind_eq_bind, Option.bind_some]
  by_cases hpoint : ∃ rest, restAt bytes i = '.' :: rest
  · obtain ⟨rest, hrest⟩ := hpoint
    obtain ⟨hlt, hnext⟩ := restAt_eq_cons hrest
    obtain ⟨j, hj, hle, hlength, hdrop⟩ := behindDigits?_spec (Nat.succ_le_of_lt hlt)
    rw [hnext] at hlength hdrop
    refine ⟨j - (i + 1), j, ?_, hle, ?_, ?_⟩
    · rw [hrest, if_pos (by rfl), Option.bind_eq_bind, hj]
      rfl
    · rw [hrest, takeFraction, hlength, Nat.add_sub_cancel_left]
    · rw [hrest, takeFraction, hdrop]
  · have hnone : takeFraction (restAt bytes i) = ([], restAt bytes i) := by
      unfold takeFraction
      split
      · next rest hrest => exact absurd ⟨rest, hrest⟩ hpoint
      · rfl
    have hhead : ¬ (restAt bytes i).head?.any (· = '.') = true := by
      intro hany
      obtain ⟨c, hc, hpoint'⟩ := (Option.any_eq_true _ _).1 hany
      obtain ⟨rest, hrest⟩ := List.head?_eq_some_iff.1 hc
      exact hpoint ⟨rest, by simpa using (of_decide_eq_true hpoint') ▸ hrest⟩
    refine ⟨0, i, ?_, hi, ?_, ?_⟩
    · rw [if_neg hhead]
      rfl
    · rw [hnone]
      rfl
    · rw [hnone]

/-- A text is digits if the position moves, and is at its end then. -/
theorem isDigits_restAt {j : Nat} (hlength : j = i + ((restAt bytes i).takeWhile isDigit).length)
    (hdrop : (restAt bytes i).dropWhile isDigit = restAt bytes j) :
    isDigits (restAt bytes i) = true ↔ j ≠ i ∧ bytes.length ≤ j := by
  have hmoved : j ≠ i ↔ (restAt bytes i).takeWhile isDigit ≠ [] := by
    rw [← List.length_pos_iff]
    omega
  have hsplit := List.takeWhile_append_dropWhile (p := isDigit) (l := restAt bytes i)
  rw [hmoved, ← restAt_eq_nil_iff, ← hdrop]
  constructor
  · intro hds
    obtain ⟨hne, hall⟩ := isDigits_iff.1 hds
    have hend : (restAt bytes i).dropWhile isDigit = [] := List.dropWhile_eq_nil_iff.2 hall
    rw [hend, List.append_nil] at hsplit
    exact ⟨by rwa [hsplit], hend⟩
  · rintro ⟨hne, hend⟩
    rw [hend, List.append_nil] at hsplit
    rw [← hsplit]
    exact isDigits_takeWhile hne

/-- What is left is a power of ten or none. -/
theorem endsWithPower?_eq (hi : i ≤ bytes.length) :
    endsWithPower? bytes i = some (readExponent? (restAt bytes i)).isSome := by
  rw [endsWithPower?, standsAt?_eq, Option.bind_eq_bind, Option.bind_some]
  cases hrest : restAt bytes i with
  | nil =>
    have hend : i = bytes.length := Nat.le_antisymm hi (restAt_eq_nil_iff.1 hrest)
    simp [readExponent?, hend]
  | cons c rest =>
    obtain ⟨hlt, hnext⟩ := restAt_eq_cons hrest
    rw [List.head?_cons, Option.any_some, readExponent?]
    by_cases hmark : c = 'e' ∨ c = 'E'
    · obtain ⟨hstart, hsign⟩ := behindSign_spec (Nat.succ_le_of_lt hlt)
      obtain ⟨j, hj, hle, hlength, hdrop⟩ := behindDigits?_spec hstart
      rw [hnext] at hsign
      have hdigits : isDigits (takeSign rest).2 = true ↔
          j ≠ behindSign bytes (i + 1) ∧ j = bytes.length := by
        rw [hsign, isDigits_restAt hlength hdrop, Nat.le_antisymm_iff, and_iff_right hle]
      rw [if_pos (by simpa using hmark), if_pos hmark]
      simp only [hj, Option.bind_eq_bind, Option.bind_some, ← Bool.decide_and, ← hdigits]
      cases isDigits (takeSign rest).2 <;> rfl
    · have hne : i ≠ bytes.length := Nat.ne_of_lt hlt
      simp [hmark, hne]

/-- No byte outside of the text is read, and the bytes are those of a numeral if their characters
are. -/
theorem scanNumeral?_eq (bytes : List UInt8) :
    scanNumeral? bytes = some (Numeral.read? (bytes.map Char.ofUInt8)).isSome := by
  obtain ⟨hstart, hsign⟩ := behindSign_spec (Nat.zero_le bytes.length)
  obtain ⟨i, hi, hile, hilength, hidrop⟩ := behindDigits?_spec hstart
  obtain ⟨count, j, hj, hjle, hcount, hjdrop⟩ := behindFraction?_spec hile
  have hbytes : bytes.map Char.ofUInt8 = restAt bytes 0 := rfl
  rw [scanNumeral?, Numeral.isSome_read?, hbytes, hsign, afterMantissa?, hidrop, hjdrop]
  simp only [hi, hj, Option.bind_eq_bind, Option.bind_some]
  have hnone : i - behindSign bytes 0 + count = 0 ↔
      ((restAt bytes (behindSign bytes 0)).takeWhile isDigit).isEmpty &&
        (takeFraction (restAt bytes i)).1.isEmpty := by
    rw [Bool.and_eq_true, List.isEmpty_iff_length_eq_zero, List.isEmpty_iff_length_eq_zero]
    omega
  by_cases hempty : i - behindSign bytes 0 + count = 0
  · rw [if_pos hempty, if_pos (hnone.1 hempty)]
    rfl
  · rw [if_neg hempty, if_neg (hnone.not.1 hempty), endsWithPower?_eq hjle]
    rfl

/-! ### Characters and their bytes -/

/-- A character that takes one byte is that byte. -/
theorem utf8EncodeChar_of_lt {c : Char} (hc : c.toNat < 128) :
    ∃ b, String.utf8EncodeChar c = [b] ∧ Char.ofUInt8 b = c := by
  have hsize : c.utf8Size = 1 := Char.utf8Size_eq_one_iff.2 (Nat.le_of_lt_succ hc)
  refine ⟨c.val.toUInt8, String.utf8EncodeChar_eq_singleton hsize, Char.toNat_inj.1 ?_⟩
  have hbyte : (Char.ofUInt8 c.val.toUInt8).toNat = c.val.toNat % 2 ^ 8 := rfl
  rw [hbyte]
  exact Nat.mod_eq_of_lt (Nat.lt_trans hc (by decide))

/-- The first byte of any other character stands for none that takes one byte. -/
theorem utf8EncodeChar_of_ge {c : Char} (hc : 128 ≤ c.toNat) :
    ∃ b bs, String.utf8EncodeChar c = b :: bs ∧ 128 ≤ (Char.ofUInt8 b).toNat := by
  have hmark (b : UInt8) {mark : UInt8} (h : 128 ≤ mark.toNat) :
      128 ≤ (Char.ofUInt8 (b ||| mark)).toNat := by
    have hor : (Char.ofUInt8 (b ||| mark)).toNat = b.toNat ||| mark.toNat := UInt8.toNat_or _ _
    rw [hor]
    exact Nat.le_trans h Nat.right_le_or
  rcases Char.utf8Size_eq c with h | h | h | h
  · have hle : c.toNat ≤ 127 := Char.utf8Size_eq_one_iff.1 h
    omega
  · exact ⟨_, _, String.utf8EncodeChar_eq_cons_cons h, hmark _ (by decide)⟩
  · exact ⟨_, _, String.utf8EncodeChar_eq_cons_cons_cons h, hmark _ (by decide)⟩
  · exact ⟨_, _, String.utf8EncodeChar_eq_cons_cons_cons_cons h, hmark _ (by decide)⟩

/-- The bytes of a text are those of characters of one byte each only if it consists of them. -/
theorem map_utf8_eq_iff {text form : List Char} (hform : ∀ d ∈ form, d.toNat < 128) :
    (utf8 text).map Char.ofUInt8 = form ↔ text = form := by
  induction form generalizing text with
  | nil =>
    rw [List.map_eq_nil_iff, utf8, List.flatMap_eq_nil_iff, List.eq_nil_iff_forall_not_mem]
    simp only [String.utf8EncodeChar_ne_nil, imp_false]
  | cons d form ih =>
    obtain ⟨hd, hform⟩ := List.forall_mem_cons.1 hform
    cases text with
    | nil => simp [utf8]
    | cons c text =>
      rw [utf8, List.flatMap_cons, ← utf8, List.map_append, List.cons.injEq]
      by_cases hc : c.toNat < 128
      · obtain ⟨b, hencode, hb⟩ := utf8EncodeChar_of_lt hc
        rw [hencode, List.map_singleton, hb, List.singleton_append, List.cons.injEq, ih hform]
      · obtain ⟨b, bs, hencode, hb⟩ := utf8EncodeChar_of_ge (Nat.not_lt.1 hc)
        rw [hencode, List.map_cons, List.cons_append, List.cons.injEq]
        constructor
        · rintro ⟨rfl, -⟩
          omega
        · rintro ⟨rfl, -⟩
          exact absurd hd hc

theorem IsNumeral.lt {text : List Char} (h : IsNumeral text) : ∀ c ∈ text, c.toNat < 128 := by
  obtain ⟨hsign, hmantissa, hpower⟩ := h
  have hsmall {text : List Char} (h : ∀ c ∈ text, c.toNat < 65) : ∀ c ∈ text, c.toNat < 128 :=
    fun c hc => Nat.lt_trans (h c hc) (by decide)
  refine List.forall_mem_append.2 ⟨List.forall_mem_append.2
    ⟨hsmall hsign.lt, hsmall hmantissa.lt⟩, ?_⟩
  cases hpower with
  | none => simp
  | power hmark hsign' hds =>
    refine List.forall_mem_cons.2 ⟨?_, List.forall_mem_append.2
      ⟨hsmall hsign'.lt, hsmall (isDigits_lt hds)⟩⟩
    rcases hmark with rfl | rfl <;> decide

/-- Reading bytes in place of characters makes no difference. -/
theorem isNumeral_map_utf8_iff {text : List Char} :
    IsNumeral ((utf8 text).map Char.ofUInt8) ↔ IsNumeral text := by
  constructor
  · intro h
    have htext := (map_utf8_eq_iff h.lt).1 rfl
    rwa [← htext] at h
  · intro h
    rwa [(map_utf8_eq_iff h.lt).2 rfl]

/-! ### Numeric texts -/

/-- A text is numeric if it is a numeral but for the blanks around it. The numeral is found by a
position that never leaves the text, and stands for a double, so that the numeric texts are those
that have a numeric view. -/
theorem isNumeric_syntax (s : String) :
    (isNumeric s.toList = true ↔ IsNumeral (Text.trim s.toList)) ∧
      scanNumeral? (utf8 (Text.trim s.toList)) = some (isNumeric s.toList) ∧
      (isNumeric s.toList = true → IsDoubleText (Text.trim s.toList)) ∧
      (Value.str s).number? =
        (if isNumeric s.toList then readDouble? (Text.trim s.toList) else none) ∧
      ((Value.str s).number?.isSome = true ↔ isNumeric s.toList = true) := by
  have hnumeral : isNumeric s.toList = true ↔ IsNumeral (Text.trim s.toList) :=
    Numeral.isSome_read?_iff
  refine ⟨hnumeral, ?_, fun h => (hnumeral.1 h).isDoubleText, ?_, ?_⟩
  · rw [scanNumeral?_eq, Option.some_inj, Bool.eq_iff_iff, Numeral.isSome_read?_iff,
      isNumeral_map_utf8_iff, hnumeral]
  · rw [Value.number?, isNumeric, readDouble?]
    cases Numeral.read? (Text.trim s.toList) <;> rfl
  · rw [Value.number?, Option.isSome_map, isNumeric]

/-- A numeral with a point behind its digits and a power of ten, between blanks. -/
theorem isNumeric_syntax_power :
    isNumeric " -1.E+05 ".toList = true ∧
      scanNumeral? (utf8 (Text.trim " -1.E+05 ".toList)) = some true ∧
      IsDoubleText (Text.trim " -1.E+05 ".toList) ∧
      (Value.str " -1.E+05 ").number?.isSome = true := by
  obtain ⟨-, hscan, hdouble, -, hview⟩ := isNumeric_syntax " -1.E+05 "
  have hnumeric : isNumeric " -1.E+05 ".toList = true := by decide +kernel
  exact ⟨hnumeric, hnumeric ▸ hscan, hdouble hnumeric, hview.2 hnumeric⟩

end Stencil.Number
