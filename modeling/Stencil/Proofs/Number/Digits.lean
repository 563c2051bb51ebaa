import Stencil.Number.Shortest

/-!
# Numbers in digits

The digits of a whole number read back as the number, and only zero starts with a zero. The digits
that are chosen for a double never write zero, so they start with another digit.

Main statements: `ofDigits_digits`, `length_digits_of_head?`, `fst_shortest_pos`.
-/

namespace Stencil.Number

theorem digitValue_digitChar {n : Nat} (hn : n < 10) : digitValue (digitChar n) = n := by
  have hall : ∀ m < 10, digitValue (digitChar m) = m := by decide
  exact hall n hn

theorem isDigit_digitChar {n : Nat} (hn : n < 10) : isDigit (digitChar n) = true := by
  have hall : ∀ m < 10, isDigit (digitChar m) = true := by decide
  exact hall n hn

theorem digitChar_ne_zero {n : Nat} (hpos : 0 < n) (hn : n < 10) : digitChar n ≠ '0' := by
  have hall : ∀ m < 10, 0 < m → digitChar m ≠ '0' := by decide
  exact hall n hn hpos

theorem ofDigits_concat (ds : List Char) (c : Char) :
    ofDigits (ds ++ [c]) = 10 * ofDigits ds + digitValue c := by
  simp [ofDigits]

theorem ofDigits_digits (n : Nat) : ofDigits (digits n) = n := by
  fun_induction digits n with
  | case1 n hn =>
    have hone : ofDigits [digitChar n] = digitValue (digitChar n) := by simp [ofDigits]
    rw [hone, digitValue_digitChar hn]
  | case2 n hn ih =>
    rw [ofDigits_concat, ih, digitValue_digitChar (Nat.mod_lt n (by decide))]
    omega

theorem isDigit_of_mem_digits {n : Nat} {c : Char} (hc : c ∈ digits n) : isDigit c = true := by
  fun_induction digits n with
  | case1 n hn =>
    obtain rfl := List.mem_singleton.1 hc
    exact isDigit_digitChar hn
  | case2 n hn ih =>
    rcases List.mem_append.1 hc with hfront | hlast
    · exact ih hfront
    · obtain rfl := List.mem_singleton.1 hlast
      exact isDigit_digitChar (Nat.mod_lt n (by decide))

theorem digits_ne_nil (n : Nat) : digits n ≠ [] := by
  unfold digits
  split <;> simp

theorem head?_digits_ne_zero {n : Nat} (hn : 0 < n) : (digits n).head? ≠ some '0' := by
  fun_induction digits n with
  | case1 n hlt => simpa using digitChar_ne_zero hn hlt
  | case2 n hge ih =>
    obtain ⟨c, ds, hds⟩ := List.exists_cons_of_ne_nil (digits_ne_nil (n / 10))
    rw [hds] at ih ⊢
    exact ih (by omega)

/-- Digits that start with a zero are the single digit of zero. -/
theorem length_digits_of_head? {n : Nat} (h : (digits n).head? = some '0') :
    (digits n).length = 1 := by
  rcases Nat.eq_zero_or_pos n with rfl | hn
  · simp [digits]
  · exact absurd h (head?_digits_ne_zero hn)

/-! ### The digits of doubles -/

theorem fst_stripZeros_pos {steps n : Nat} {k : Int} (hn : 0 < n) :
    0 < (stripZeros steps n k).1 := by
  induction steps generalizing n k with
  | zero => exact hn
  | succ steps ih =>
    unfold stripZeros
    split
    · next hzero => exact ih (by omega)
    · exact hn

namespace Interval

variable {i : Interval}

theorem pos_of_has (hlow : 0 < i.low) {n : Nat} {k : Int} (h : i.has n k = true) : 0 < n := by
  rcases Nat.eq_zero_or_pos n with rfl | hn
  · have hratio : (decimalRatio 0 k).1 = 0 ∧ 0 < (decimalRatio 0 k).2 := by
      unfold decimalRatio
      split
      · exact ⟨Nat.zero_mul _, Nat.one_pos⟩
      · exact ⟨rfl, Nat.pow_pos (by decide)⟩
    have hpoint : 0 < i.low * (decimalRatio 0 k).2 := Nat.mul_pos hlow hratio.2
    unfold has at h
    simp only [hratio.1, Nat.zero_mul] at h
    split at h
    · simp at h
      omega
    · simp at h
  · exact hn

theorem pos_of_onGrid? (hlow : 0 < i.low) {tie : Tie} {k : Int} {n : Nat}
    (h : i.onGrid? tie k = some n) : 0 < n := by
  unfold onGrid? at h
  split at h
  next num den _ =>
    simp only at h
    split at h
    · next hboth =>
      have hlower : 0 < num / den := pos_of_has hlow (Bool.and_eq_true_iff.1 hboth).1
      obtain rfl := Option.some.inj h
      split
      · exact hlower
      · exact Nat.succ_pos _
    · split at h
      · next hlower =>
        obtain rfl := Option.some.inj h
        exact pos_of_has hlow hlower
      · split at h
        · obtain rfl := Option.some.inj h
          exact Nat.succ_pos _
        · simp at h

theorem low_ofDouble_pos {significand : Nat} (h : 0 < significand) (exponent : Int) :
    0 < (ofDouble significand exponent).low := by
  unfold ofDouble
  extract_lets below
  have hbelow : below ≤ 2 := by
    unfold below
    split <;> omega
  split
  next up down hscale =>
    have hup : 0 < up := by
      split at hscale
      · cases hscale
        exact Nat.pow_pos (by decide)
      · cases hscale
        decide
    exact Nat.mul_pos (by omega) hup

end Interval

/-- The digits that are chosen for a positive double write a positive number. -/
theorem fst_shortest_pos (tie : Tie) {significand : Nat} (h : 0 < significand) (exponent : Int) :
    0 < (shortest tie significand exponent).1 := by
  have hlow := Interval.low_ofDouble_pos h exponent
  unfold shortest
  simp only
  split
  · next n k hhit =>
    obtain ⟨count, -, hcount⟩ := List.exists_of_findSome?_eq_some hhit
    obtain ⟨n', hgrid, hpair⟩ := Option.map_eq_some_iff.1 hcount
    obtain ⟨rfl, rfl⟩ := Prod.mk.inj hpair
    exact fst_stripZeros_pos (Interval.pos_of_onGrid? hlow hgrid)
  · exact h

end Stencil.Number
