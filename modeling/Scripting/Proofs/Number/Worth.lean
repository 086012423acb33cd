/-
What a double is worth. A finite double stands for the rational `± m · 2^e`; one that is whole is worth
the integer that it is cut to, and the integers up to `2^53` are all there.
-/
import Scripting.Number.Binary64
import Mathlib.Data.Rat.Cast.Order
import Mathlib.Algebra.Order.Field.Power
import Mathlib.Tactic.FieldSimp
import Mathlib.Tactic.NormNum

namespace Scripting.Binary64

/-! ## Fields -/

section Fields

variable (negative : Bool) {e f : Nat}

theorem toNat_bits_ofFields (he : e < 2 ^ 11) (hf : f < 2 ^ 52) :
    (ofFields negative e f).bits.toNat = (if negative then 2 ^ 63 else 0) + e * 2 ^ 52 + f := by
  have hlow : e * 2 ^ 52 + f < 2 ^ 63 := by omega
  have hor : e <<< 52 ||| f = e * 2 ^ 52 + f := by
    rw [← Nat.shiftLeft_add_eq_or_of_lt hf, Nat.shiftLeft_eq]
  have hsign : ((if negative then 1 else 0 : UInt64) <<< 63).toNat = (if negative then 1 else 0) <<< 63 := by
    cases negative <;> rfl
  have hexp : (e.toUInt64 <<< 52).toNat = e <<< 52 := by
    rw [UInt64.toNat_shiftLeft, Nat.toUInt64_eq, UInt64.toNat_ofNat', Nat.mod_eq_of_lt (by omega : e < 2 ^ 64)]
    simp only [UInt64.toNat_ofNat, Nat.reducePow, Nat.reduceMod, Nat.shiftLeft_eq]
    omega
  have hfrac : f.toUInt64.toNat = f := by
    rw [Nat.toUInt64_eq, UInt64.toNat_ofNat']
    exact Nat.mod_eq_of_lt (by omega)
  rw [ofFields, UInt64.toNat_or, UInt64.toNat_or, hsign, hexp, hfrac, Nat.or_assoc, hor,
    ← Nat.shiftLeft_add_eq_or_of_lt hlow, Nat.shiftLeft_eq, ← Nat.add_assoc]
  cases negative <;> simp

theorem signBit_eq (x : Binary64) : x.signBit = decide (2 ^ 63 ≤ x.bits.toNat) := by
  have hshift : (x.bits >>> 63).toNat = x.bits.toNat / 2 ^ 63 := by
    rw [UInt64.toNat_shiftRight, Nat.shiftRight_eq_div_pow]
    rfl
  have hlt := x.bits.toNat_lt
  rw [signBit, Bool.eq_iff_iff, bne_iff_ne, decide_eq_true_iff, ne_eq, ← UInt64.toNat_inj, hshift]
  show ¬ x.bits.toNat / 2 ^ 63 = 0 ↔ _
  omega

theorem exponentField_eq (x : Binary64) : x.exponentField = x.bits.toNat / 2 ^ 52 % 2 ^ 11 := by
  rw [exponentField, UInt64.toNat_and, UInt64.toNat_shiftRight, Nat.shiftRight_eq_div_pow]
  exact Nat.and_two_pow_sub_one_eq_mod _ 11

theorem fractionField_eq (x : Binary64) : x.fractionField = x.bits.toNat % 2 ^ 52 := by
  rw [fractionField, UInt64.toNat_and]
  exact Nat.and_two_pow_sub_one_eq_mod _ 52

theorem signBit_ofFields (he : e < 2 ^ 11) (hf : f < 2 ^ 52) : (ofFields negative e f).signBit = negative := by
  rw [signBit_eq, toNat_bits_ofFields negative he hf]
  cases negative <;> simp <;> omega

theorem exponentField_ofFields (he : e < 2 ^ 11) (hf : f < 2 ^ 52) : (ofFields negative e f).exponentField = e := by
  rw [exponentField_eq, toNat_bits_ofFields negative he hf]
  cases negative <;> simp <;> omega

theorem fractionField_ofFields (he : e < 2 ^ 11) (hf : f < 2 ^ 52) : (ofFields negative e f).fractionField = f := by
  rw [fractionField_eq, toNat_bits_ofFields negative he hf]
  cases negative <;> simp <;> omega

end Fields

theorem isNaN_of_isFinite {x : Binary64} (h : x.isFinite = true) : x.isNaN = false := by
  rw [isFinite, bne_iff_ne] at h
  rw [isNaN, Bool.and_eq_false_iff, beq_eq_false_iff_ne]
  exact .inl h

theorem isInfinite_of_isFinite {x : Binary64} (h : x.isFinite = true) : x.isInfinite = false := by
  rw [isFinite, bne_iff_ne] at h
  rw [isInfinite, Bool.and_eq_false_iff, beq_eq_false_iff_ne]
  exact .inl h

/-! ## Worth -/

/-- The rational that a finite double stands for. -/
def worth (x : Binary64) : ℚ := x.signed * 2 ^ x.exponent

/-- The double of a sign, a significand of 53 bits and an exponent in its range is worth what they say. -/
theorem worth_ofSignificand (negative : Bool) {m : Nat} {e : Int} (hm : hiddenBit ≤ m) (hlt : m < 2 * hiddenBit)
    (he : -1074 ≤ e) (hgt : e ≤ 971) : (ofSignificand negative m e).isFinite = true ∧
      (ofSignificand negative m e).worth = (if negative then -1 else 1) * (m * 2 ^ e) := by
  have hhidden : hiddenBit = 2 ^ 52 := rfl
  have hfield : (e + 1075).toNat < 2 ^ 11 := by omega
  have hfraction : m - hiddenBit < 2 ^ 52 := by omega
  have hmade : ofSignificand negative m e = ofFields negative (e + 1075).toNat (m - hiddenBit) := by
    rw [ofSignificand, if_neg (by omega : m ≠ 2 * hiddenBit)]
    simp only
    rw [if_neg (by omega), if_neg (by omega)]
  have hexp := exponentField_ofFields negative hfield hfraction
  have hnonzero : (e + 1075).toNat ≠ 0 := by omega
  rw [hmade]
  constructor
  · rw [isFinite, hexp, bne_iff_ne]
    omega
  · have hsig : (ofFields negative (e + 1075).toNat (m - hiddenBit)).significand = m := by
      rw [significand, hexp, if_neg hnonzero, fractionField_ofFields negative hfield hfraction]
      omega
    have hexponent : (ofFields negative (e + 1075).toNat (m - hiddenBit)).exponent = e := by
      rw [exponent, hexp, if_neg hnonzero]
      omega
    rw [worth, hexponent, signed, signBit_ofFields negative hfield hfraction, hsig]
    cases negative <;> simp

/-! ## Integers -/

theorem roundQuotient_mul (q : Nat) {d : Nat} (hd : 0 < d) : roundQuotient (q * d) d = q := by
  rw [roundQuotient, Nat.mul_div_cancel q hd, Nat.mul_mod_left]
  exact if_pos (by omega)

theorem binaryExponent_one {n : Nat} (hn : n ≠ 0) : binaryExponent n 1 = n.log2 := by
  have hlog : 1 <<< n.log2 ≤ n := by
    rw [Nat.one_shiftLeft]
    exact Nat.log2_self_le hn
  have hone : Nat.log2 1 = 0 := rfl
  rw [binaryExponent, hone]
  simp only [Int.natCast_zero, Int.sub_zero, Int.toNat_natCast]
  rw [if_pos]
  have hneg : (-(n.log2 : Int)).toNat = 0 := by omega
  rwa [hneg]

/-- An integer up to `2^53` is the double of a significand of 53 bits. -/
theorem ofQuotient_one (negative : Bool) {n : Nat} (hn : n ≠ 0) (hle : n ≤ 2 ^ 53) :
    ∃ m e, ofQuotient negative n 1 = ofSignificand negative m e ∧ hiddenBit ≤ m ∧ m < 2 * hiddenBit ∧
      -1074 ≤ e ∧ e ≤ 971 ∧ (m * 2 ^ e : ℚ) = n := by
  have hhidden : hiddenBit = 2 ^ 52 := rfl
  have hlow : 2 ^ n.log2 ≤ n := Nat.log2_self_le hn
  have hhigh : n < 2 ^ (n.log2 + 1) := Nat.lt_log2_self
  have hunit : max (binaryExponent n 1 - 52) (-1074) = (n.log2 : Int) - 52 := by
    rw [binaryExponent_one hn]
    omega
  rw [ofQuotient, if_neg hn, hunit]
  simp only
  rcases Nat.lt_or_ge n.log2 53 with hk | hk
  · -- the significand is the integer with zeros behind it
    obtain ⟨z, hz⟩ := Nat.exists_eq_add_of_le (Nat.le_of_lt_succ hk)
    have hneg : (-((n.log2 : Int) - 52)).toNat = z := by omega
    have hpos : ((n.log2 : Int) - 52).toNat = 0 := by omega
    have hround : roundQuotient (n * 2 ^ z) 1 = n * 2 ^ z := by
      simpa using roundQuotient_mul (n * 2 ^ z) Nat.one_pos
    have hexp : (n.log2 : Int) - 52 = -(z : Int) := by omega
    refine ⟨n * 2 ^ z, n.log2 - 52, ?_, ?_, ?_, by omega, by omega, ?_⟩
    · rw [hneg, hpos, Nat.shiftLeft_eq, Nat.shiftLeft_zero, hround]
    · calc hiddenBit = 2 ^ n.log2 * 2 ^ z := by rw [hhidden, ← Nat.pow_add, ← hz]
        _ ≤ n * 2 ^ z := Nat.mul_le_mul_right _ hlow
    · calc n * 2 ^ z < 2 ^ (n.log2 + 1) * 2 ^ z := Nat.mul_lt_mul_of_pos_right hhigh (Nat.two_pow_pos z)
        _ = 2 * hiddenBit := by rw [hhidden, Nat.pow_succ, Nat.mul_right_comm, ← Nat.pow_add, ← hz, Nat.mul_comm]
    · rw [hexp]
      push_cast
      rw [zpow_neg, zpow_natCast]
      field_simp
  · -- only `2^53` itself has one bit more
    obtain rfl : n = 2 ^ 53 := Nat.le_antisymm hle ((Nat.pow_le_pow_right Nat.two_pos hk).trans hlow)
    rw [Nat.log2_two_pow]
    refine ⟨2 ^ 52, 1, ?_, by omega, by omega, by omega, by omega, by norm_num⟩
    exact congrArg (ofSignificand negative · 1) (roundQuotient_mul (2 ^ 52) Nat.two_pos)

/-- Up to `2^53` the double of an integer is worth the integer. -/
theorem worth_ofInt {i : Int} (h : i.natAbs ≤ 2 ^ 53) : (ofInt i).isFinite = true ∧ (ofInt i).worth = i := by
  by_cases hi : i = 0
  · subst hi
    refine ⟨rfl, ?_⟩
    have hsigned : (ofInt 0).signed = 0 := rfl
    rw [worth, hsigned]
    simp
  · obtain ⟨m, e, hmade, hm, hlt, he, hgt, hworth⟩ := ofQuotient_one (i < 0) (Int.natAbs_ne_zero.2 hi) h
    obtain ⟨hfinite, hvalue⟩ := worth_ofSignificand (i < 0) hm hlt he hgt
    rw [ofInt, hmade]
    refine ⟨hfinite, hvalue.trans ?_⟩
    rw [hworth, Nat.cast_natAbs]
    by_cases hneg : i < 0
    · simp [hneg, abs_of_neg hneg]
    · simp [hneg, abs_of_nonneg (Int.not_lt.1 hneg)]

/-- A whole number is worth the integer that is left when its fractional part is cut off. -/
theorem worth_of_isWhole {x : Binary64} (h : x.isWhole = true) : x.worth = x.truncate := by
  rw [isWhole, Bool.and_eq_true, Bool.or_eq_true, decide_eq_true_iff, beq_iff_eq] at h
  have hcut : (x.significand * 2 ^ x.exponent : ℚ) =
      (x.significand <<< x.exponent.toNat >>> (-x.exponent).toNat : Nat) := by
    rw [Nat.shiftLeft_eq, Nat.shiftRight_eq_div_pow]
    rcases Int.le_total 0 x.exponent with he | he
    · obtain ⟨e, he⟩ := Int.eq_ofNat_of_zero_le he
      have hneg : (-(e : Int)).toNat = 0 := by omega
      rw [he, hneg]
      simp
    · obtain ⟨e, he'⟩ := Int.eq_ofNat_of_zero_le (Int.neg_nonneg.2 he)
      have hexp : x.exponent = -(e : Int) := by omega
      have hdvd : 2 ^ e ∣ x.significand := by
        rcases h.2 with h | h
        · obtain rfl : e = 0 := by omega
          simp
        · rw [he', Int.toNat_natCast, Nat.one_shiftLeft] at h
          exact Nat.dvd_of_mod_eq_zero h
      have hpos : (-(e : Int)).toNat = 0 := by omega
      obtain ⟨q, hq⟩ := hdvd
      rw [hq, hexp, hpos, Int.neg_neg, Int.toNat_natCast, Nat.pow_zero, Nat.mul_one,
        Nat.mul_div_cancel_left _ (Nat.two_pow_pos e), zpow_neg, zpow_natCast]
      push_cast
      field_simp
  rw [worth, signed, truncate]
  split
  · rw [Int.cast_neg, Int.cast_natCast, neg_mul, hcut, Int.cast_neg, Int.cast_natCast]
  · rw [Int.cast_natCast, hcut, Int.cast_natCast]

theorem natAbs_signed (x : Binary64) : x.signed.natAbs = x.significand := by
  rw [signed]
  split
  · rw [Int.natAbs_neg, Int.natAbs_natCast]
  · rw [Int.natAbs_natCast]

/-- A finite number that is worth an integer is whole. -/
theorem isWhole_of_worth {x : Binary64} (hf : x.isFinite = true) {n : Int} (h : x.worth = n) : x.isWhole = true := by
  rw [isWhole, hf, Bool.true_and, Bool.or_eq_true, decide_eq_true_iff, beq_iff_eq]
  rcases Int.le_total 0 x.exponent with he | he
  · exact .inl he
  · right
    obtain ⟨e, he⟩ := Int.eq_ofNat_of_zero_le (Int.neg_nonneg.2 he)
    have hexp : x.exponent = -(e : Int) := by omega
    -- the significand is the integer with zeros behind it
    have hscaled : x.signed = n * 2 ^ e := by
      rw [worth, hexp, zpow_neg, zpow_natCast, ← div_eq_mul_inv, div_eq_iff (pow_ne_zero e two_ne_zero)] at h
      exact_mod_cast h
    have hsig : x.significand = n.natAbs * 2 ^ e := by
      rw [← natAbs_signed, hscaled, Int.natAbs_mul, Int.natAbs_pow]
      rfl
    rw [he, Int.toNat_natCast, Nat.one_shiftLeft, hsig, Nat.mul_mod_left]

theorem isWhole_iff {x : Binary64} : x.isWhole = true ↔ x.isFinite = true ∧ ∃ n : Int, x.worth = n := by
  constructor
  · intro h
    have hf : x.isFinite = true := by
      rw [isWhole, Bool.and_eq_true] at h
      exact h.1
    exact ⟨hf, x.truncate, worth_of_isWhole h⟩
  · rintro ⟨hf, n, h⟩
    exact isWhole_of_worth hf h

end Scripting.Binary64
