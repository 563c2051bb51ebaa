import Stencil.Number.Binary
import Stencil.Number.Numeral
import Stencil.Proofs.Number.Digits

/-!
# Whole numbers as numerals

The text of a whole number is a numeral, which has no blanks at its ends and is read as the double
that the number is converted to.

Main statements: `Number.Numeral.read?_intText`, `Number.Numeral.toFloat_integer`.
-/

namespace Stencil.Number

theorem not_isBlank_of_isDigit {c : Char} (hc : isDigit c = true) : ¬ Text.isBlank c := by
  simp only [isDigit, Bool.and_eq_true, decide_eq_true_eq, Char.le_def] at hc
  simp only [Text.isBlank, Bool.or_eq_true, Bool.and_eq_true, decide_eq_true_eq, beq_iff_eq]
  have hlow : 48 ≤ c.toNat := hc.1
  have hhigh : c.toNat ≤ 57 := hc.2
  omega

/-- Digits have no sign in front. -/
theorem takeSign_digits {ds : List Char} (hds : ∀ c ∈ ds, isDigit c = true) (rest : List Char)
    (hne : ds ≠ []) : takeSign (ds ++ rest) = (false, ds ++ rest) := by
  obtain ⟨c, ds, rfl⟩ := List.exists_cons_of_ne_nil hne
  have hc : isDigit c = true := hds c (.head _)
  unfold takeSign
  split
  · next h =>
    obtain ⟨rfl, -⟩ := List.cons.inj h
    exact absurd hc (by decide)
  · next h =>
    obtain ⟨rfl, -⟩ := List.cons.inj h
    exact absurd hc (by decide)
  · rfl

/-- The minus sign of a negative number, and no sign otherwise. -/
def signText (negative : Bool) : List Char :=
  if negative then ['-'] else []

theorem toList_intText (n : Int) :
    (intText n).toList = signText (decide (n < 0)) ++ digits n.natAbs := by
  unfold intText
  split
  · next hneg => simp [signText, natText, hneg]
  · next hneg => simp [signText, natText, hneg]

/-- The text of a whole number has no blank at its ends. -/
theorem trim_intText (n : Int) : Text.trim (intText n).toList = (intText n).toList := by
  have hall : ∀ c ∈ (intText n).toList, ¬ Text.isBlank c := by
    intro c hc
    rw [toList_intText] at hc
    rcases List.mem_append.1 hc with hsign | hdigit
    · unfold signText at hsign
      split at hsign
      · obtain rfl := List.mem_singleton.1 hsign
        decide
      · cases hsign
    · exact not_isBlank_of_isDigit (isDigit_of_mem_digits hdigit)
  exact Text.trim_eq_self_of_forall hall

namespace Numeral

/-- Digits without point and power of ten, behind a sign or not. -/
theorem read?_signText_append (negative : Bool) {ds : List Char}
    (hds : ∀ c ∈ ds, isDigit c = true) (hne : ds ≠ []) :
    read? (signText negative ++ ds) = some ⟨negative, ds, [], none⟩ := by
  have hsign : takeSign (signText negative ++ ds) = (negative, ds) := by
    cases negative with
    | true => rfl
    | false => simpa [signText] using takeSign_digits hds [] hne
  have hspan : ds.takeWhile isDigit = ds ∧ ds.dropWhile isDigit = [] := by
    simpa using Text.span_append hds fun c (hc : c ∈ [].head?) => by cases hc
  simp [read?, hsign, hspan, takeFraction, readExponent?, hne]

theorem read?_intText (n : Int) :
    read? (intText n).toList = some ⟨decide (n < 0), digits n.natAbs, [], none⟩ := by
  rw [toList_intText]
  exact read?_signText_append _ (fun c hc => isDigit_of_mem_digits hc) (digits_ne_nil _)

/-- Digits without point and power of ten are read as the double of the whole number that they
write. -/
theorem toFloat_integer (n : Int) :
    toFloat ⟨decide (n < 0), digits n.natAbs, [], none⟩ = ofInt n := by
  have hpower : power ⟨decide (n < 0), digits n.natAbs, [], none⟩ = 0 := rfl
  simp only [toFloat, List.append_nil, hpower, ofDigits_digits, ofDecimal, ofInt]
  split
  · next hzero =>
    have hn : n.natAbs = 0 := by omega
    rw [hn]
  · simp [decimalRatio]

end Numeral

end Stencil.Number
