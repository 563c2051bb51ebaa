import Mathlib
import Stencil.Number.Binary

/-!
# Whole numbers as doubles

Whole numbers below `2 ^ 53` are doubles: none of their digits is lost, they are read back as they
are, and a greater one is not less.

## Main definitions

None of its own; the significand of `n` is `n * 2 ^ (52 - n.log2)`, and its exponent is
`n.log2 - 52`.

Main statements: `Number.truncate_ofInt`, `Number.not_ofInt_lt`.

## Design notes

The order of doubles is that of the logical model of `Float`. This takes bits apart into bit
vectors, and `parts` takes them apart by division; both are brought to the same fields here, an
exponent and a fraction as natural numbers.
-/

namespace Stencil.Number

open Float.Model (Format UnpackedFloat)
open Float.Model.UnpackedFloat (unpackExponent unpackMantissa unpackSign)

/-! ### Bits by their fields -/

section Fields

variable {bits : UInt64} {exponent fraction : Nat}

theorem unpackExponent_of_fields (hfraction : fraction < 2 ^ 52)
    (hbits : bits.toNat = exponent * 2 ^ 52 + fraction) :
    @unpackExponent Format.binary64 bits.toBitVec = BitVec.ofNat 11 exponent := by
  apply BitVec.eq_of_toNat_eq
  have hvec : bits.toBitVec.toNat = bits.toNat := rfl
  rw [unpackExponent, BitVec.toNat_cast, BitVec.extractLsb_toNat, hvec, hbits, BitVec.toNat_ofNat,
    Nat.shiftRight_eq_div_pow]
  show (exponent * 2 ^ 52 + fraction) / 2 ^ 52 % 2 ^ 11 = exponent % 2 ^ 11
  omega

theorem unpackMantissa_of_fields (hbits : bits.toNat = exponent * 2 ^ 52 + fraction) :
    @unpackMantissa Format.binary64 bits.toBitVec = BitVec.ofNat 52 fraction := by
  apply BitVec.eq_of_toNat_eq
  have hvec : bits.toBitVec.toNat = bits.toNat := rfl
  rw [unpackMantissa, BitVec.toNat_cast, BitVec.extractLsb_toNat, hvec, hbits, BitVec.toNat_ofNat,
    Nat.shiftRight_eq_div_pow]
  show (exponent * 2 ^ 52 + fraction) / 2 ^ 0 % 2 ^ 52 = fraction % 2 ^ 52
  omega

theorem unpackSign_of_fields (hexponent : exponent < 2047) (hfraction : fraction < 2 ^ 52)
    (hbits : bits.toNat = exponent * 2 ^ 52 + fraction) :
    @unpackSign Format.binary64 bits.toBitVec = 0#1 := by
  apply BitVec.eq_of_toNat_eq
  have hvec : bits.toBitVec.toNat = bits.toNat := rfl
  rw [unpackSign, BitVec.toNat_cast, BitVec.extractLsb_toNat, hvec, hbits,
    Nat.shiftRight_eq_div_pow]
  show (exponent * 2 ^ 52 + fraction) / 2 ^ 63 % 2 ^ 1 = 0
  omega

/-- The exponent of a finite number is not the one of infinities. -/
theorem exponent_ne_allOnes (hexponent : exponent < 2047) :
    BitVec.ofNat 11 exponent ≠ -1#11 := by
  intro h
  have hnat := congrArg BitVec.toNat h
  have hones : (-1#11).toNat = 2047 := rfl
  rw [BitVec.toNat_ofNat, Nat.mod_eq_of_lt (by omega), hones] at hnat
  omega

theorem exponent_ne_zero (hpos : exponent ≠ 0) (hexponent : exponent < 2047) :
    BitVec.ofNat 11 exponent ≠ 0#11 := by
  intro h
  have hnat := congrArg BitVec.toNat h
  rw [BitVec.toNat_ofNat, Nat.mod_eq_of_lt (by omega)] at hnat
  exact hpos hnat

/-- The value of bits whose exponent is that of a normal number. -/
theorem unpack_of_fields (hpos : exponent ≠ 0) (hexponent : exponent < 2047)
    (hfraction : fraction < 2 ^ 52) (hbits : bits.toNat = exponent * 2 ^ 52 + fraction) :
    UnpackedFloat.unpack Format.binary64 bits.toBitVec =
      .finite .positive (2 ^ 52 + fraction) ((exponent : Int) - 1075) (by omega) := by
  have hfield := unpackExponent_of_fields hfraction hbits
  have hmantissa := unpackMantissa_of_fields hbits
  have hsign := unpackSign_of_fields hexponent hfraction hbits
  have hfinite : @unpackExponent Format.binary64 bits.toBitVec ≠ -1#11 := by
    rw [hfield]
    exact exponent_ne_allOnes hexponent
  have hnormal : @unpackExponent Format.binary64 bits.toBitVec ≠ 0#11 := by
    rw [hfield]
    exact exponent_ne_zero hpos hexponent
  have hbias : ((@unpackExponent Format.binary64 bits.toBitVec).toNat : Int) -
      ((Format.binary64.exponentBias : Int) + (52 : Nat)) = exponent - 1075 := by
    have hvalue : (BitVec.ofNat 11 exponent).toNat = exponent :=
      (BitVec.toNat_ofNat exponent 11).trans (Nat.mod_eq_of_lt (by omega))
    rw [hfield]
    show ((BitVec.ofNat 11 exponent).toNat : Int) - ((1023 : Nat) + (52 : Nat)) = exponent - 1075
    rw [hvalue]
    omega
  have hleading : (1#1 ++ @unpackMantissa Format.binary64 bits.toBitVec).toNat =
      2 ^ 52 + fraction := by
    rw [hmantissa, BitVec.toNat_append, ← Nat.shiftLeft_add_eq_or_of_lt (BitVec.isLt _),
      BitVec.toNat_ofNat, BitVec.toNat_ofNat, Nat.mod_eq_of_lt hfraction]
    rfl
  unfold UnpackedFloat.unpack
  dsimp only
  rw [if_neg hfinite, if_neg hnormal]
  simp only [hleading, hbias, hsign]
  rfl

/-- Only the bits of what is no number are changed when they are made a double. -/
theorem toBits_ofBits_of_fields (hexponent : exponent < 2047) (hfraction : fraction < 2 ^ 52)
    (hbits : bits.toNat = exponent * 2 ^ 52 + fraction) : (Float.ofBits bits).toBits = bits := by
  have hnumber : @UnpackedFloat.isNaNBits Format.binary64 bits.toBitVec = false := by
    have hfinite : @unpackExponent Format.binary64 bits.toBitVec ≠ -1#11 := by
      rw [unpackExponent_of_fields hfraction hbits]
      exact exponent_ne_allOnes hexponent
    exact decide_eq_false fun h => hfinite h.1
  have hpack := @UnpackedFloat.pack_unpack Format.binary64 bits.toBitVec (by decide)
  rw [hnumber] at hpack
  exact congrArg UInt64.ofBitVec hpack

end Fields

/-! ### The fields of whole numbers -/

variable {m n : Nat}

theorem log2_le_of_lt (hn : n ≠ 0) (h : n < 2 ^ 53) : n.log2 ≤ 52 :=
  Nat.lt_succ_iff.1 ((Nat.log2_lt hn).2 h)

theorem significand_bounds (hn : n ≠ 0) (h : n < 2 ^ 53) :
    2 ^ 52 ≤ n * 2 ^ (52 - n.log2) ∧ n * 2 ^ (52 - n.log2) < 2 ^ 53 := by
  have hlog := log2_le_of_lt hn h
  constructor
  · calc 2 ^ 52 = 2 ^ n.log2 * 2 ^ (52 - n.log2) := by rw [← Nat.pow_add]; congr 1; omega
      _ ≤ n * 2 ^ (52 - n.log2) := Nat.mul_le_mul_right _ (Nat.log2_self_le hn)
  · calc n * 2 ^ (52 - n.log2) < 2 ^ (n.log2 + 1) * 2 ^ (52 - n.log2) :=
          Nat.mul_lt_mul_of_pos_right Nat.lt_log2_self (Nat.two_pow_pos _)
      _ = 2 ^ 53 := by rw [← Nat.pow_add]; congr 1; omega

theorem roundHalfEven_one (n : Nat) : roundHalfEven n 1 = n := by
  simp [roundHalfEven, Nat.mod_one]

theorem exponentOf_one (hn : n ≠ 0) (h : n < 2 ^ 53) :
    BinaryFormat.double.exponentOf n 1 = n.log2 - 52 := by
  have hlog := log2_le_of_lt hn h
  have hreached : Nat.pow 2 n.log2 ≤ n := Nat.log2_self_le hn
  have hone : Nat.log2 1 = 0 := by decide
  unfold BinaryFormat.exponentOf
  simp only [hone, BinaryFormat.double, Int.sub_zero, Int.natCast_nonneg, if_true,
    Int.toNat_natCast, Nat.one_mul, hreached, decide_true, Nat.cast_zero]
  omega

/-- Nothing is rounded. -/
theorem round_one (hn : n ≠ 0) (h : n < 2 ^ 53) :
    BinaryFormat.double.round n 1 = some (n * 2 ^ (52 - n.log2), (n.log2 : Int) - 52) := by
  have hlog := log2_le_of_lt hn h
  have hcarry : n * 2 ^ (52 - n.log2) ≠ 2 ^ BinaryFormat.double.precision :=
    Nat.ne_of_lt (significand_bounds hn h).2
  have hrange : ¬ BinaryFormat.double.maxExponent < n.log2 - 52 := by
    show ¬ (971 : Int) < n.log2 - 52
    omega
  have hrounded : (if (0 : Int) ≤ n.log2 - 52 then
        roundHalfEven n (1 * 2 ^ ((n.log2 : Int) - 52).toNat)
      else roundHalfEven (n * 2 ^ (-((n.log2 : Int) - 52)).toNat) 1) = n * 2 ^ (52 - n.log2) := by
    split
    · have hfull : n.log2 = 52 := by omega
      rw [hfull]
      exact (roundHalfEven_one n).trans (Nat.mul_one n).symm
    · rw [roundHalfEven_one]
      congr 2
      omega
  simp only [BinaryFormat.round, if_neg hn, exponentOf_one hn h, Nat.pow_eq, hrounded,
    if_neg hcarry, if_neg hrange]

theorem ofInt_eq (hn : n ≠ 0) (h : n < 2 ^ 53) :
    ofInt n = ofBits ((n.log2 + 1023) * 2 ^ 52 + (n * 2 ^ (52 - n.log2) - 2 ^ 52)) := by
  have hnormal : ¬ n * 2 ^ (52 - n.log2) < 2 ^ 52 := Nat.not_lt.2 (significand_bounds hn h).1
  have hexponent : ((n.log2 : Int) - 52 + 1075).toNat = n.log2 + 1023 := by omega
  have hsign : decide ((n : Int) < 0) = false := by simp
  simp only [ofInt, ofRatio, Int.natAbs_natCast, round_one hn h, hsign, finiteBits, Nat.pow_eq,
    if_neg hnormal, hexponent, Bool.false_eq_true, if_false, Nat.zero_add]

/-- The bits of a whole number. -/
theorem toBits_ofInt (hn : n ≠ 0) (h : n < 2 ^ 53) :
    (ofInt n).toBits.toNat =
      (n.log2 + 1023) * 2 ^ 52 + (n * 2 ^ (52 - n.log2) - 2 ^ 52) := by
  have hlog := log2_le_of_lt hn h
  have hbounds := significand_bounds hn h
  generalize hfraction : n * 2 ^ (52 - n.log2) - 2 ^ 52 = fraction
  have hlt : fraction < 2 ^ 52 := by omega
  have hbits : (UInt64.ofNat ((n.log2 + 1023) * 2 ^ 52 + fraction)).toNat =
      (n.log2 + 1023) * 2 ^ 52 + fraction := by
    rw [UInt64.toNat_ofNat']
    exact Nat.mod_eq_of_lt (by omega)
  rw [ofInt_eq hn h, hfraction, ofBits, toBits_ofBits_of_fields (by omega) hlt hbits, hbits]

theorem unpack_ofInt_zero : (ofInt 0).toModel.unpack = .zero .positive := rfl

theorem unpack_ofInt (hn : n ≠ 0) (h : n < 2 ^ 53) :
    ∃ hpos, (ofInt n).toModel.unpack =
      .finite .positive (n * 2 ^ (52 - n.log2)) (n.log2 - 52) hpos := by
  have hlog := log2_le_of_lt hn h
  have hbounds := significand_bounds hn h
  have hunpack := unpack_of_fields (Nat.succ_ne_zero (n.log2 + 1022)) (by omega) (by omega)
    (toBits_ofInt hn h)
  have hexponent : ((n.log2 + 1023 : Nat) : Int) - 1075 = n.log2 - 52 := by omega
  refine ⟨by omega, hunpack.trans ?_⟩
  simp only [Nat.add_sub_cancel' hbounds.1, hexponent]

theorem parts_ofInt (hn : n ≠ 0) (h : n < 2 ^ 53) :
    parts (ofInt n) = .finite false (n * 2 ^ (52 - n.log2)) (n.log2 - 52) := by
  have hlog := log2_le_of_lt hn h
  have hbounds := significand_bounds hn h
  have hbits := toBits_ofInt hn h
  generalize n * 2 ^ (52 - n.log2) = significand at hbounds hbits ⊢
  have hsign : ¬ 2 ^ 63 ≤ (ofInt n).toBits.toNat := by omega
  have hfield : (ofInt n).toBits.toNat / 2 ^ 52 % 2 ^ 11 = n.log2 + 1023 := by omega
  have hfraction : (ofInt n).toBits.toNat % 2 ^ 52 = significand - 2 ^ 52 := by omega
  have hfinite : n.log2 + 1023 ≠ 2047 := by omega
  have hnormal : n.log2 + 1023 ≠ 0 := by omega
  have hexponent : ((n.log2 + 1023 : Nat) : Int) - 1075 = n.log2 - 52 := by omega
  simp only [parts, Nat.pow_eq, hfield, hfraction, if_neg hfinite, if_neg hnormal,
    Nat.add_sub_cancel' hbounds.1, hexponent, decide_eq_false hsign]

/-! ### Reading back, and the order -/

/-- A whole number is read back from its double. -/
theorem truncate_ofInt (h : n < 2 ^ 53) : truncate (ofInt n) = n := by
  by_cases hn : n = 0
  · subst hn
    decide +kernel
  · have hlog := log2_le_of_lt hn h
    have hwhole : (if (0 : Int) ≤ n.log2 - 52 then
          n * 2 ^ (52 - n.log2) * 2 ^ ((n.log2 : Int) - 52).toNat
        else n * 2 ^ (52 - n.log2) / 2 ^ (-((n.log2 : Int) - 52)).toNat) = n := by
      split
      · have hfull : n.log2 = 52 := by omega
        simp [hfull]
      · have hshift : (-((n.log2 : Int) - 52)).toNat = 52 - n.log2 := by omega
        rw [hshift, Nat.mul_div_cancel _ (Nat.two_pow_pos _)]
    have hsmall : ¬ (64 : Int) < n.log2 - 52 := by omega
    simp only [truncate, parts_ofInt hn h, Nat.pow_eq, if_neg hsmall, hwhole, Bool.false_eq_true,
      if_false]
    omega

theorem log2_mono (hm : m ≠ 0) (hle : m ≤ n) : m.log2 ≤ n.log2 :=
  (Nat.le_log2 (by omega)).2 (Nat.le_trans (Nat.log2_self_le hm) hle)

/-- A double is not less than that of a number that is not greater: the exponents decide, and the
significands where these are the same. -/
theorem not_ofInt_lt (hle : m ≤ n) (h : n < 2 ^ 53) : ¬ ofInt n < ofInt m := by
  show ¬ decide ((ofInt n).toModel.unpack.lt (ofInt m).toModel.unpack = true) = true
  rw [decide_eq_true_eq, UnpackedFloat.lt]
  by_cases hn : n = 0
  · obtain rfl : m = 0 := by omega
    subst hn
    decide +kernel
  · obtain ⟨_, hunpack⟩ := unpack_ofInt hn h
    by_cases hm : m = 0
    · subst hm
      rw [hunpack, Int.natCast_zero, unpack_ofInt_zero]
      exact Bool.false_ne_true
    · obtain ⟨_, hunpack'⟩ := unpack_ofInt hm (Nat.lt_of_le_of_lt hle h)
      have hlog : m.log2 ≤ n.log2 := log2_mono hm hle
      rw [hunpack, hunpack']
      show ¬ (some ((compare ((n.log2 : Int) - 52) (m.log2 - 52)).then
        (compare (n * 2 ^ (52 - n.log2)) (m * 2 ^ (52 - m.log2)))) == some Ordering.lt) = true
      rcases Nat.lt_or_eq_of_le hlog with hlt | heq
      · have hgreater : compare ((n.log2 : Int) - 52) (m.log2 - 52) = .gt :=
          Int.compare_eq_gt.2 (by omega)
        rw [hgreater]
        exact Bool.false_ne_true
      · rw [heq, Int.compare_eq_eq.2 rfl]
        have hge : compare (n * 2 ^ (52 - n.log2)) (m * 2 ^ (52 - n.log2)) ≠ .lt :=
          fun hlt => Nat.not_lt.2 (Nat.mul_le_mul_right _ hle) (Nat.compare_eq_lt.1 hlt)
        simpa using hge

end Stencil.Number
