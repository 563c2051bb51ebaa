import Mathlib.Algebra.Group.Nat.Defs
import Stencil.Json.Reader
import Stencil.Json.Record
import Stencil.Proofs.Number.Numerals

/-!
# Strings and numbers of JSON read back

The written form of a string or of a number is read as this string or number, whatever follows.
Behind a number nothing may follow that continues it.

## Main definitions

* `Numeral.IsWritable` - the numbers that are written as JSON allows
* `Json.EndsNumber` - the texts that continue no number

Main statements: `readString?_writeString`, `readNumber?_writeNumber`, `isWritable_of_ofFloat?`.
-/

namespace Stencil

open Number

namespace Json

/-! ### Strings -/

theorem hexValue?_hexDigit {n : Nat} (hn : n < 16) : hexValue? (hexDigit n) = some n := by
  have hall : ∀ m < 16, hexValue? (hexDigit m) = some m := by decide
  exact hall n hn

/-- The four digits that write a control character. -/
theorem readUnit?_control {n : Nat} (hn : n < 0x20) (rest : List Char) :
    readUnit? ('0' :: '0' :: hexDigit (n / 16) :: hexDigit (n % 16) :: rest) = some (n, rest) := by
  have hzero : hexValue? '0' = some 0 := rfl
  have hhigh : hexValue? (hexDigit (n / 16)) = some (n / 16) := hexValue?_hexDigit (by omega)
  have hlow : hexValue? (hexDigit (n % 16)) = some (n % 16) := hexValue?_hexDigit (by omega)
  have hvalue : n / 16 * 16 + n % 16 = n := by omega
  simp [readUnit?, hzero, hhigh, hlow, hvalue]

theorem readEscape?_control {c : Char} (hc : c.toNat < 0x20) (rest : List Char) :
    readEscape? ('u' :: '0' :: '0' :: hexDigit (c.toNat / 16) :: hexDigit (c.toNat % 16) :: rest) =
      some (some c, rest) := by
  have hnosurrogate : ¬ (0xD800 ≤ c.toNat ∧ c.toNat ≤ 0xDBFF) ∧
      ¬ (0xDC00 ≤ c.toNat ∧ c.toNat ≤ 0xDFFF) := by omega
  simp [readEscape?, readUnit?_control hc, hnosurrogate]

/-- A text behind a backslash: the character that the escape writes, and then the string goes
on. -/
theorem readString?_escape {text rest : List Char} {c : Char}
    (h : readEscape? text = some (some c, rest)) :
    readString? ('\\' :: text) =
      (readString? rest).map fun (body, rest) => (body.map (c :: ·), rest) := by
  rw [readString?, if_neg (by decide), if_pos rfl]
  split
  · next hnone => simp [h] at hnone
  · next d rest' hsome =>
    obtain ⟨rfl, rfl⟩ : some c = d ∧ rest = rest' := by simpa [h] using hsome
    rfl

theorem readString?_plain {c : Char} (hquote : c ≠ '\x22') (hslash : c ≠ '\\')
    (hcontrol : ¬ c.toNat < 0x20) (text : List Char) :
    readString? (c :: text) =
      (readString? text).map fun (body, rest) => (body.map (c :: ·), rest) := by
  rw [readString?, if_neg hquote, if_neg hslash, if_neg hcontrol]

theorem readString?_escapeChar (c : Char) (text : List Char) :
    readString? (escapeChar c ++ text) =
      (readString? text).map fun (body, rest) => (body.map (c :: ·), rest) := by
  unfold escapeChar
  split
  · next h => subst h; exact readString?_escape rfl
  split
  · next h => subst h; exact readString?_escape rfl
  split
  · next h => subst h; exact readString?_escape rfl
  split
  · next h => subst h; exact readString?_escape rfl
  split
  · next h => subst h; exact readString?_escape rfl
  split
  · next h => subst h; exact readString?_escape rfl
  split
  · next h => subst h; exact readString?_escape rfl
  split
  · next hcontrol => exact readString?_escape (readEscape?_control hcontrol text)
  · next hquote hslash _ _ _ _ _ hcontrol => exact readString?_plain hquote hslash hcontrol text

theorem readString?_flatMap_escapeChar (body rest : List Char) :
    readString? (body.flatMap escapeChar ++ '\x22' :: rest) = some (some body, rest) := by
  induction body with
  | nil => rw [List.flatMap_nil, List.nil_append, readString?, if_pos rfl]
  | cons c body ih =>
    rw [List.flatMap_cons, List.append_assoc, readString?_escapeChar, ih]
    rfl

theorem readString?_writeString (text : String) (rest : List Char) :
    ∃ inner, writeString text ++ rest = '\x22' :: inner ∧
      readString? inner = some (some text.toList, rest) := by
  refine ⟨text.toList.flatMap escapeChar ++ '\x22' :: rest, ?_, ?_⟩
  · simp [writeString]
  · exact readString?_flatMap_escapeChar text.toList rest

/-! ### Numbers -/

/-- A text that does not continue a number in front of it. -/
def EndsNumber (rest : List Char) : Prop :=
  ∀ c ∈ rest.head?, isDigit c = false ∧ c ≠ '.' ∧ c ≠ 'e' ∧ c ≠ 'E'

end Json

/-- A number as JSON writes it: at least one digit in front of the point, a zero there only alone,
and at least one digit in a power of ten. -/
structure Number.Numeral.IsWritable (n : Numeral) : Prop where
  whole_ne_nil : n.whole ≠ []
  whole_digits : ∀ c ∈ n.whole, isDigit c = true
  whole_zero : n.whole.head? = some '0' → n.whole.length = 1
  fraction_digits : ∀ c ∈ n.fraction, isDigit c = true
  exponent_digits : ∀ negative ds, n.exponent = some (negative, ds) →
    ds ≠ [] ∧ ∀ c ∈ ds, isDigit c = true

namespace Json

/-- The written form of a fraction. -/
def fractionText (fraction : List Char) : List Char :=
  if fraction = [] then [] else '.' :: fraction

/-- The written form of a power of ten. -/
def powerText : Option (Bool × List Char) → List Char
  | none => []
  | some (negative, ds) => 'e' :: (if negative then '-' :: ds else ds)

theorem writeNumber_eq (n : Numeral) (rest : List Char) :
    writeNumber n ++ rest =
      (if n.negative then ['-'] else []) ++
        (n.whole ++ (fractionText n.fraction ++ (powerText n.exponent ++ rest))) := by
  unfold writeNumber fractionText powerText
  cases n.exponent with
  | none => simp only [List.append_assoc]
  | some power => simp only [List.append_assoc]

theorem readPower?_powerText {exponent : Option (Bool × List Char)}
    (hdigits : ∀ negative ds, exponent = some (negative, ds) →
      ds ≠ [] ∧ ∀ c ∈ ds, isDigit c = true)
    {rest : List Char} (hrest : EndsNumber rest) :
    readPower? (powerText exponent ++ rest) = some (exponent, rest) := by
  cases exponent with
  | none =>
    cases rest with
    | nil => rfl
    | cons c rest =>
      obtain ⟨-, -, he, hE⟩ := hrest c rfl
      simp [powerText, readPower?, he, hE]
  | some power =>
    obtain ⟨negative, ds⟩ := power
    obtain ⟨hne, hds⟩ := hdigits negative ds rfl
    obtain ⟨htake, hdrop⟩ := Text.span_append hds fun c hc => Bool.eq_false_iff.1 (hrest c hc).1
    cases negative with
    | true => simp [powerText, readPower?, takeSign, htake, hdrop, hne]
    | false => simp [powerText, readPower?, takeSign_digits hds rest hne, htake, hdrop, hne]

theorem readFraction?_fractionText {fraction : List Char}
    (hdigits : ∀ c ∈ fraction, isDigit c = true) {rest : List Char}
    (hrest : ∀ c ∈ rest.head?, isDigit c = false ∧ c ≠ '.') :
    readFraction? (fractionText fraction ++ rest) = some (fraction, rest) := by
  unfold fractionText
  split
  · next hnil =>
    subst hnil
    unfold readFraction?
    split
    · next h =>
      obtain rfl : rest = _ := h
      exact absurd rfl (hrest '.' rfl).2
    · rfl
  · next hne =>
    obtain ⟨htake, hdrop⟩ := Text.span_append hdigits fun c hc => Bool.eq_false_iff.1 (hrest c hc).1
    simp [readFraction?, htake, hdrop, hne]

theorem head?_powerText (exponent : Option (Bool × List Char)) {rest : List Char}
    (hrest : EndsNumber rest) :
    ∀ c ∈ (powerText exponent ++ rest).head?, isDigit c = false ∧ c ≠ '.' := by
  cases exponent with
  | none => exact fun c hc => ⟨(hrest c hc).1, (hrest c hc).2.1⟩
  | some power =>
    intro c hc
    obtain rfl : 'e' = c := by simpa [powerText] using hc
    decide

theorem head?_fractionText (fraction : List Char) {rest : List Char}
    (hrest : ∀ c ∈ rest.head?, isDigit c = false ∧ c ≠ '.') :
    ∀ c ∈ (fractionText fraction ++ rest).head?, isDigit c = false := by
  unfold fractionText
  split
  · exact fun c hc => (hrest c hc).1
  · intro c hc
    obtain rfl : '.' = c := by simpa using hc
    decide

theorem readNumber?_writeNumber {n : Numeral} (hn : n.IsWritable) {rest : List Char}
    (hrest : EndsNumber rest) : readNumber? (writeNumber n ++ rest) = some (n, rest) := by
  have hpower := readPower?_powerText hn.exponent_digits hrest
  have hpowerHead := head?_powerText n.exponent hrest
  have hfraction := readFraction?_fractionText hn.fraction_digits hpowerHead
  obtain ⟨htake, hdrop⟩ := Text.span_append hn.whole_digits fun c hc =>
    Bool.eq_false_iff.1 (head?_fractionText n.fraction hpowerHead c hc)
  have hzero : ¬ (n.whole = [] ∨ n.whole.head? = some '0' ∧ 1 < n.whole.length) := by
    rintro (hnil | ⟨hhead, hlength⟩)
    · exact hn.whole_ne_nil hnil
    · have := hn.whole_zero hhead
      omega
  rw [writeNumber_eq]
  generalize htext : n.whole ++ (fractionText n.fraction ++ (powerText n.exponent ++ rest)) = text
  rw [htext] at htake hdrop
  -- Behind the sign, which a digit cannot be taken for, the pieces are read one after another.
  have hpieces (negative : Bool) (hnegative : n.negative = negative) :
      readNumber? ((if negative then ['-'] else []) ++ text) = some (n, rest) := by
    have hself : n = ⟨negative, n.whole, n.fraction, n.exponent⟩ := hnegative ▸ rfl
    cases negative with
    | true => simp [readNumber?, htake, hdrop, hzero, hfraction, hpower, ← hself]
    | false =>
      have hsign : ∀ digits, text ≠ '-' :: digits := by
        rintro digits rfl
        rw [List.takeWhile_cons_of_neg (by decide)] at htake
        exact hn.whole_ne_nil htake.symm
      simp only [Bool.false_eq_true, if_false, List.nil_append]
      unfold readNumber?
      split
      next negative' unsigned hsplit =>
        split at hsplit
        · exact absurd rfl (hsign _)
        · obtain ⟨rfl, rfl⟩ := Prod.mk.inj hsplit
          simp [htake, hdrop, hzero, hfraction, hpower, ← hself]
  exact hpieces n.negative rfl

end Json

/-! ### The numbers that are written -/

namespace Number.Numeral

theorem isWritable_digits (negative : Bool) (n : Nat) :
    IsWritable ⟨negative, digits n, [], none⟩ where
  whole_ne_nil := digits_ne_nil n
  whole_digits _ hc := isDigit_of_mem_digits hc
  whole_zero := length_digits_of_head?
  fraction_digits := by simp
  exponent_digits := by simp

/-- The pieces of a number that does not start with a zero. -/
theorem isWritable_of_head {negative : Bool} {c : Char} {ds fraction : List Char}
    {exponent : Option (Bool × List Char)} (hc : c ≠ '0')
    (hwhole : ∀ d ∈ c :: ds, isDigit d = true) (hfraction : ∀ d ∈ fraction, isDigit d = true)
    (hexponent : ∀ negative n, exponent = some (negative, n) →
      n ≠ [] ∧ ∀ d ∈ n, isDigit d = true) :
    IsWritable ⟨negative, c :: ds, fraction, exponent⟩ where
  whole_ne_nil := List.cons_ne_nil c ds
  whole_digits := hwhole
  whole_zero h := absurd (Option.some.inj h) hc
  fraction_digits := hfraction
  exponent_digits := hexponent

theorem isWritable_of_ofFloat? {x : Float} {n : Numeral} (h : ofFloat? x = some n) :
    n.IsWritable := by
  unfold ofFloat? at h
  split at h
  · simp at h
  · simp at h
  next negative m e _ =>
  split at h
  · obtain rfl := Option.some.inj h
    exact ⟨by simp, by simp [isDigit], by simp, by simp [isDigit], by simp⟩
  next hm =>
  have hpos : 0 < (shortest .even m e).1 := fst_shortest_pos .even (Nat.pos_of_ne_zero hm) e
  split at h
  next n' k hshortest =>
  rw [hshortest] at hpos
  have hdigit : ∀ d ∈ digits n', isDigit d = true := fun d hd => isDigit_of_mem_digits hd
  have hzero : ∀ d ∈ List.replicate k.toNat '0', isDigit d = true := by
    intro d hd
    rw [List.eq_of_mem_replicate hd]
    decide
  have hhead : (digits n').head? ≠ some '0' := head?_digits_ne_zero hpos
  obtain ⟨c, ds, hds⟩ := List.exists_cons_of_ne_nil (digits_ne_nil n')
  rw [hds] at h hdigit hhead
  dsimp only at h
  have hc : c ≠ '0' := fun heq => hhead (by rw [heq]; rfl)
  have hmem : ∀ d ∈ ds, isDigit d = true := fun d hd => hdigit d (.tail c hd)
  split at h
  · -- A whole number.
    obtain rfl := Option.some.inj h
    refine isWritable_of_head hc (fun d hd => ?_) (by simp [isDigit]) (by simp)
    rcases List.mem_append.1 (show d ∈ (c :: ds) ++ _ from hd) with hfront | hback
    · exact hdigit d hfront
    · exact hzero d hback
  split at h
  · -- The point stands among the digits.
    next hplace =>
    obtain rfl := Option.some.inj h
    obtain ⟨place, hsucc⟩ := Nat.exists_eq_succ_of_ne_zero
      (show (((c :: ds).length : Int) + k).toNat ≠ 0 by omega)
    rw [hsucc]
    refine isWritable_of_head hc (fun d hd => ?_) (fun d hd => ?_) (by simp)
    · exact hdigit d (List.mem_of_mem_take (show d ∈ (c :: ds).take (place + 1) from hd))
    · exact hmem d (List.mem_of_mem_drop (show d ∈ ds.drop place from hd))
  split at h
  · -- The point stands in front of the digits.
    obtain rfl := Option.some.inj h
    refine ⟨by simp, by simp [isDigit], by simp, fun d hd => ?_, by simp⟩
    rcases List.mem_append.1 hd with hfront | hback
    · rw [List.eq_of_mem_replicate hfront]
      decide
    · exact hdigit d hback
  · -- One digit stands in front of the point, and a power of ten follows.
    obtain rfl := Option.some.inj h
    refine isWritable_of_head hc (fun d hd => ?_) hmem ?_
    · exact hdigit d (List.mem_of_mem_take (show d ∈ (c :: ds).take 1 from hd))
    · rintro negative' n'' hn
      obtain ⟨-, rfl⟩ := Prod.mk.inj (Option.some.inj hn)
      exact ⟨digits_ne_nil _, fun d hd => isDigit_of_mem_digits hd⟩

end Number.Numeral

namespace Json

theorem quantity?_digits (negative : Bool) {n : Nat} (hn : n < Nat.pow 2 64) :
    quantity? ⟨negative, digits n, [], none⟩ =
      if !negative then some (.natural n)
      else if 0 < n ∧ n ≤ Nat.pow 2 63 then some (.negative (-n))
      else some (.double (-ofRatio false n 1)) := by
  simp only [quantity?, ofDigits_digits, hn, and_self, if_true]

theorem toNat?_ofNat {n : Nat} (hn : n < 2 ^ 64) : (ofNat n).toNat? = some n := by
  have hquantity : quantity? ⟨false, digits n, [], none⟩ = some (.natural n) :=
    quantity?_digits false hn
  simp only [ofNat, toNat?, hquantity]

theorem toInt64?_ofInt (n : Int64) : (ofInt n.toInt).toInt64? = some n := by
  have hlow : -2 ^ 63 ≤ n.toInt := n.le_toInt
  have hhigh : n.toInt < 2 ^ 63 := n.toInt_lt
  have hback : Int64.ofInt n.toInt = n := Int64.ofInt_toInt n
  have hsize : n.toInt.natAbs < Nat.pow 2 64 := by
    show n.toInt.natAbs < 2 ^ 64
    omega
  by_cases hneg : n.toInt < 0
  · have hpos : 0 < n.toInt.natAbs ∧ n.toInt.natAbs ≤ Nat.pow 2 63 := by
      show 0 < n.toInt.natAbs ∧ n.toInt.natAbs ≤ 2 ^ 63
      omega
    have habs : -(n.toInt.natAbs : Int) = n.toInt := by omega
    have hquantity : quantity? ⟨true, digits n.toInt.natAbs, [], none⟩ =
        some (.negative (-n.toInt.natAbs)) :=
      (quantity?_digits true hsize).trans (if_pos hpos)
    simp only [ofInt, decide_eq_true hneg, toInt64?, hquantity]
    rw [habs, hback]
  · have hlt : n.toInt.natAbs < Nat.pow 2 63 := by
      show n.toInt.natAbs < 2 ^ 63
      omega
    have habs : (n.toInt.natAbs : Int) = n.toInt := by omega
    have hnat : Int64.ofNat n.toInt.natAbs = n := by
      rw [← Int64.ofInt_eq_ofNat, habs, hback]
    have hquantity : quantity? ⟨false, digits n.toInt.natAbs, [], none⟩ =
        some (.natural n.toInt.natAbs) :=
      quantity?_digits false hsize
    simp only [ofInt, decide_eq_false hneg, toInt64?, hquantity]
    rw [if_pos hlt, hnat]

end Json

end Stencil
