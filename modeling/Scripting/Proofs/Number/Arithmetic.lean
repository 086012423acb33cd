/-
Products and quotients of doubles. Each is the exact product or quotient of what its operands are worth, rounded once;
whole numbers up to `2^53` and powers of ten up to `10^22` are worth exactly what they say.
-/
import Scripting.Proofs.Number.Rounding

namespace Scripting.Binary64

/-! ## Signs -/

/-- A double is made of its fields. -/
theorem eq_ofFields (x : Binary64) : x = ofFields x.signBit x.exponentField x.fractionField := by
  have he : x.exponentField < 2 ^ 11 := by
    rw [exponentField_eq]
    exact Nat.mod_lt _ (by decide)
  have hf : x.fractionField < 2 ^ 52 := fractionField_lt x
  have hbits := toNat_bits_ofFields x.signBit he hf
  have hlt := x.bits.toNat_lt
  have heq : x.bits = (ofFields x.signBit x.exponentField x.fractionField).bits := by
    rw [← UInt64.toNat_inj, hbits, signBit_eq, exponentField_eq, fractionField_eq]
    simp only [decide_eq_true_eq]
    split <;> omega
  cases x
  exact congrArg Binary64.mk heq

theorem bits_neg (x : Binary64) : (-x).bits.toNat = x.bits.toNat ^^^ 2 ^ 63 := UInt64.toNat_xor ..

/-- The other sign makes of a double the one with the same fields. -/
theorem neg_ofFields {e f : Nat} (he : e < 2 ^ 11) (hf : f < 2 ^ 52) : -(ofFields false e f) = ofFields true e f := by
  have hbits := toNat_bits_ofFields false he hf
  have hsign : (-(ofFields false e f)).signBit = true := by
    have hdiv : ((ofFields false e f).bits.toNat ^^^ 2 ^ 63) / 2 ^ 63 = 1 := by
      rw [Nat.xor_div_two_pow, Nat.div_self (by decide), hbits, Nat.div_eq_of_lt (by simp; omega)]
      rfl
    rw [signBit_eq, bits_neg, decide_eq_true_iff]
    omega
  have hexponent : (-(ofFields false e f)).exponentField = e := by
    refine Eq.trans ?_ (exponentField_ofFields false he hf)
    rw [exponentField_eq, exponentField_eq, bits_neg, Nat.xor_div_two_pow, Nat.xor_mod_two_pow]
    simp only [Nat.reducePow, Nat.reduceDiv, Nat.reduceMod, Nat.xor_zero]
  have hfraction : (-(ofFields false e f)).fractionField = f := by
    refine Eq.trans ?_ (fractionField_ofFields false he hf)
    rw [fractionField_eq, fractionField_eq, bits_neg, Nat.xor_mod_two_pow]
    simp only [Nat.reducePow, Nat.reduceMod, Nat.xor_zero]
  rw [eq_ofFields (-(ofFields false e f)), hsign, hexponent, hfraction]

/-! ## Products and quotients -/

theorem isZero_iff (x : Binary64) : x.isZero = true ↔ x.significand = 0 := by
  rw [isZero, Bool.and_eq_true, beq_iff_eq, beq_iff_eq, significand]
  have hhidden : hiddenBit ≠ 0 := by decide
  split <;> omega

section

variable {x y : Binary64} (hx : x.isFinite = true) (hy : y.isFinite = true)

include hx hy

/-- A product is rounded once. -/
theorem mul_of_finite : ∃ num den : Nat, 0 < den ∧ (num : ℚ) / den = x.magnitude * y.magnitude ∧
    x * y = ofQuotient (x.signBit != y.signBit) num den := by
  refine ⟨(x.significand * y.significand) <<< (x.exponent + y.exponent).toNat,
    1 <<< (-(x.exponent + y.exponent)).toNat, ?_, ?_, ?_⟩
  · rw [Nat.one_shiftLeft]
    exact Nat.two_pow_pos _
  · rw [cast_unit, zpow_add₀ two_ne_zero, magnitude, magnitude]
    push_cast
    ring
  · show mul x y = _
    unfold mul
    simp only [isNaN_of_isFinite hx, isNaN_of_isFinite hy, isInfinite_of_isFinite hx, isInfinite_of_isFinite hy,
      Bool.or_self, Bool.false_eq_true, if_false]
    rfl

/-- A quotient is rounded once. -/
theorem div_of_finite (hne : y.significand ≠ 0) : ∃ num den : Nat, 0 < den ∧
    (num : ℚ) / den = x.magnitude / y.magnitude ∧ x / y = ofQuotient (x.signBit != y.signBit) num den := by
  have hzero : y.isZero = false := by
    rw [← Bool.not_eq_true, isZero_iff]
    exact hne
  refine ⟨x.significand <<< (x.exponent - y.exponent).toNat, y.significand <<< (-(x.exponent - y.exponent)).toNat,
    ?_, ?_, ?_⟩
  · rw [Nat.shiftLeft_eq]
    exact Nat.mul_pos (Nat.pos_of_ne_zero hne) (Nat.two_pow_pos _)
  · have hshifted := cast_shifted x.significand y.significand (-(x.exponent - y.exponent))
    rw [Int.neg_neg, zpow_neg, zpow_sub₀ two_ne_zero, div_inv_eq_mul, div_mul_div_comm] at hshifted
    exact hshifted
  · show div x y = _
    unfold div
    simp only [isNaN_of_isFinite hx, isNaN_of_isFinite hy, isInfinite_of_isFinite hx, isInfinite_of_isFinite hy, hzero,
      Bool.or_self, Bool.false_eq_true, if_false]

end

/-! ## Whole numbers -/

theorem magnitude_nonneg (x : Binary64) : 0 ≤ x.magnitude := by
  rw [magnitude]
  positivity

/-- The double of a whole number up to `2^53` is worth it. -/
theorem ofNat_spec {n : Nat} (hn : n ≠ 0) (hle : n ≤ 2 ^ 53) :
    (ofNat n).isFinite = true ∧ (ofNat n).signBit = false ∧ (ofNat n).magnitude = n := by
  have hmade : ofNat n = ofInt n := by
    rw [ofNat, ofInt, Int.natAbs_natCast]
    congr 1
  obtain ⟨hfinite, hworth⟩ := worth_ofInt (i := n) (by rwa [Int.natAbs_natCast])
  rw [← hmade] at hfinite hworth
  have hpos : (0 : ℚ) < n := by exact_mod_cast Nat.pos_of_ne_zero hn
  have hnonneg := magnitude_nonneg (ofNat n)
  rw [worth_eq, Int.cast_natCast] at hworth
  cases hsign : (ofNat n).signBit with
  | true =>
    rw [hsign, if_pos rfl] at hworth
    linarith
  | false =>
    rw [hsign, if_neg Bool.false_ne_true, one_mul] at hworth
    exact ⟨hfinite, rfl, hworth⟩

/-! ## The end of the range -/

/-- The rationals from here on round to no finite double. -/
def overflow : ℚ := (2 ^ 54 - 1) * 2 ^ (970 : Int)

theorem overflow_lt : overflow < 2 ^ (1024 : Int) := by
  have hsplit : (2 : ℚ) ^ (1024 : Int) = 2 ^ 54 * 2 ^ (970 : Int) := by
    rw [← zpow_natCast, ← zpow_add₀ two_ne_zero]
    rfl
  rw [overflow, hsplit]
  exact mul_lt_mul_of_pos_right (sub_one_lt _) (two_zpow_pos _)

theorem magnitude_eq_abs (x : Binary64) : x.magnitude = |x.worth| := by
  rw [worth_eq, abs_mul, abs_of_nonneg (magnitude_nonneg x)]
  split <;> simp

/-- The double of a significand and an exponent within the range is finite and worth what they say. -/
theorem ofSignificand_spec (negative : Bool) {m : Nat} {e : Int} (hm : m ≤ 2 * hiddenBit) (he : -1074 ≤ e)
    (hfrom : hiddenBit ≤ m ∨ e = -1074) (hto : e ≤ 970 ∨ e = 971 ∧ m < 2 * hiddenBit) :
    (ofSignificand negative m e).isFinite = true ∧ (ofSignificand negative m e).magnitude = m * 2 ^ e := by
  have hhidden : hiddenBit = 2 ^ 52 := rfl
  have hnormal : ∀ {m : Nat} {e : Int}, hiddenBit ≤ m → m < 2 * hiddenBit → -1074 ≤ e → e ≤ 971 →
      (ofSignificand negative m e).isFinite = true ∧ (ofSignificand negative m e).magnitude = m * 2 ^ e := by
    intro m e hm hlt he hgt
    obtain ⟨hfinite, hworth⟩ := worth_ofSignificand negative hm hlt he hgt
    refine ⟨hfinite, ?_⟩
    have hnonneg : (0 : ℚ) ≤ m * 2 ^ e := by positivity
    rw [magnitude_eq_abs, hworth, abs_mul, abs_of_nonneg hnonneg]
    split <;> simp
  rcases Nat.lt_or_ge m hiddenBit with hlow | hhigh
  · obtain rfl : e = -1074 := hfrom.resolve_left (by omega)
    have hmade : ofSignificand negative m (-1074) = ofFields negative 0 m := by
      rw [ofSignificand, if_neg (by omega)]
      exact if_pos hlow
    have hexponent := exponentField_ofFields negative (e := 0) (f := m) (by decide) hlow
    have hfraction := fractionField_ofFields negative (e := 0) (f := m) (by decide) hlow
    rw [hmade, isFinite, magnitude, significand, exponent, hexponent, hfraction]
    exact ⟨rfl, rfl⟩
  · by_cases hcarry : m = 2 * hiddenBit
    · have hnext := ofSignificand_carry negative (e + 1)
      rw [Int.add_sub_cancel] at hnext
      obtain ⟨hfinite, hvalue⟩ := hnormal (m := hiddenBit) (e := e + 1) (le_refl _) (by omega) (by omega) (by omega)
      rw [hcarry, hnext]
      refine ⟨hfinite, hvalue.trans ?_⟩
      rw [zpow_add_one₀ two_ne_zero]
      push_cast
      ring
    · exact hnormal hhigh (by omega) he (by omega)

section

variable {num den : Nat} (hden : 0 < den)

include hden

/-- A quotient in the unit that it is rounded in. -/
theorem unit_spec (hnum : 0 < num) : ∃ e : Int, -1074 ≤ e ∧
    (∀ negative, ofQuotient negative num den =
      ofSignificand negative (roundQuotient (num <<< (-e).toNat) (den <<< e.toNat)) e) ∧
    (num : ℚ) / den < 2 * hiddenBit * 2 ^ e ∧ (-1074 < e → hiddenBit * 2 ^ e ≤ (num : ℚ) / den) := by
  have hhidden : (hiddenBit : ℚ) = 2 ^ (52 : Int) := by norm_num [hiddenBit]
  obtain ⟨hfrom, hto⟩ := binaryExponent_spec hnum hden
  refine ⟨max (binaryExponent num den - 52) (-1074), le_max_right _ _, ?_, ?_, ?_⟩
  · intro negative
    rw [ofQuotient, if_neg hnum.ne']
  · refine hto.trans_le ?_
    rw [hhidden, ← zpow_one_add₀ two_ne_zero, ← zpow_add₀ two_ne_zero]
    exact zpow_le_zpow_right₀ one_le_two (by omega)
  · intro he
    refine le_trans ?_ hfrom
    rw [hhidden, ← zpow_add₀ two_ne_zero]
    exact zpow_le_zpow_right₀ one_le_two (by omega)

/-- A quotient below the end of the range is rounded to a finite double no more than half a unit above it. -/
theorem ofQuotient_spec (negative : Bool) (hnum : 0 < num) (h : (num : ℚ) / den < overflow) :
    (ofQuotient negative num den).isFinite = true ∧ ∃ e : Int,
      (ofQuotient negative num den).magnitude ≤ num / den + 2 ^ e / 2 ∧
      (num : ℚ) / den < 2 * hiddenBit * 2 ^ e ∧ (-1074 < e → hiddenBit * 2 ^ e ≤ (num : ℚ) / den) := by
  obtain ⟨e, he, hmade, hto, hfrom⟩ := unit_spec hden hnum
  have hhidden : (hiddenBit : ℚ) = 2 ^ (52 : Int) := by norm_num [hiddenBit]
  have hunit := two_zpow_pos e
  have hshifted : 0 < den <<< e.toNat := by
    rw [Nat.shiftLeft_eq]
    positivity
  obtain ⟨hlow, hhigh, -⟩ := roundQuotient_spec (num <<< (-e).toNat) hshifted
  rw [cast_shifted, le_div_iff₀ hunit] at hlow
  rw [cast_shifted, div_le_iff₀ hunit] at hhigh
  rw [hmade]
  generalize roundQuotient (num <<< (-e).toNat) (den <<< e.toNat) = m at hlow hhigh
  generalize (num : ℚ) / den = q at *
  have hsize : m ≤ 2 * hiddenBit := by
    have hm : (m : ℚ) < (2 * hiddenBit + 1 : Nat) := by
      refine lt_of_mul_lt_mul_right ?_ hunit.le
      push_cast
      linarith
    exact Nat.lt_succ_iff.1 (by exact_mod_cast hm)
  have hnormal : hiddenBit ≤ m ∨ e = -1074 := by
    by_cases hleast : e = -1074
    · exact .inr hleast
    · have hm : ((hiddenBit : Nat) : ℚ) < (m + 1 : Nat) := by
        refine lt_of_mul_lt_mul_right ?_ hunit.le
        push_cast
        linarith [hfrom (by omega)]
      exact .inl (Nat.lt_succ_iff.1 (by exact_mod_cast hm))
  have hrange : e ≤ 970 ∨ e = 971 ∧ m < 2 * hiddenBit := by
    rcases lt_trichotomy e 971 with hlt | rfl | hgt
    · exact .inl (by omega)
    · -- in the last unit there is room for everything below the end of the range
      have hend : overflow + 2 ^ (971 : Int) / 2 = (2 * hiddenBit : Nat) * 2 ^ (971 : Int) := by
        have hunits : (2 : ℚ) ^ (971 : Int) = 2 * 2 ^ (970 : Int) := by
          rw [← zpow_one_add₀ two_ne_zero]
          rfl
        rw [overflow, hunits, hiddenBit]
        generalize (2 : ℚ) ^ (970 : Int) = u
        push_cast
        ring
      have hm : (m : ℚ) < (2 * hiddenBit : Nat) := by
        refine lt_of_mul_lt_mul_right ?_ hunit.le
        rw [← hend]
        linarith
      exact .inr ⟨rfl, by exact_mod_cast hm⟩
    · have hbinade : (2 : ℚ) ^ (52 + e) < 2 ^ (1024 : Int) := by
        rw [zpow_add₀ two_ne_zero, ← hhidden]
        exact (hfrom (by omega)).trans_lt (h.trans overflow_lt)
      have hsum := two_zpow_lt.1 hbinade
      omega
  obtain ⟨hfinite, hvalue⟩ := ofSignificand_spec negative hsize he hnormal hrange
  refine ⟨hfinite, e, ?_, hto, hfrom⟩
  rw [hvalue]
  linarith

theorem isFinite_ofQuotient (negative : Bool) (h : (num : ℚ) / den < overflow) :
    (ofQuotient negative num den).isFinite = true := by
  by_cases hnum : num = 0
  · rw [hnum, ofQuotient, if_pos rfl]
    cases negative <;> rfl
  · exact (ofQuotient_spec hden negative (Nat.pos_of_ne_zero hnum) h).1

/-- From one on it is no more than half a unit of the last of 53 bits above it. -/
theorem magnitude_ofQuotient_le (negative : Bool) (h : (num : ℚ) / den < overflow) (hone : 1 ≤ (num : ℚ) / den) :
    (ofQuotient negative num den).magnitude ≤ num / den * (1 + 2 ^ (-53 : Int)) := by
  have hnum : 0 < num := by
    rw [Nat.pos_iff_ne_zero]
    rintro rfl
    rw [Nat.cast_zero, zero_div] at hone
    linarith
  obtain ⟨-, e, hle, hto, hfrom⟩ := ofQuotient_spec hden negative hnum h
  have hhidden : (hiddenBit : ℚ) = 2 ^ (52 : Int) := by norm_num [hiddenBit]
  have he : (0 : Int) < 53 + e := by
    refine two_zpow_lt.1 (hone.trans_lt (hto.trans_le (le_of_eq ?_)))
    rw [hhidden, ← zpow_one_add₀ two_ne_zero, ← zpow_add₀ two_ne_zero]
    rfl
  have hunit := hfrom (by omega)
  have hhalf : (2 : ℚ) ^ e / 2 = hiddenBit * 2 ^ e * 2 ^ (-53 : Int) := by
    rw [hhidden]
    norm_num
    ring
  have hpos := two_zpow_pos (-53)
  calc (ofQuotient negative num den).magnitude ≤ num / den + 2 ^ e / 2 := hle
    _ ≤ num / den + num / den * 2 ^ (-53 : Int) := by
      rw [hhalf]
      gcongr
    _ = num / den * (1 + 2 ^ (-53 : Int)) := by ring

end

end Scripting.Binary64
