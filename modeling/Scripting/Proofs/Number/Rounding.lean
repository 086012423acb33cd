/-
Rounding to the nearest double. The rationals that round to a finite double are those between two ends around it, half
a unit of its last place away and a quarter below a power of two, with the ends where the significand is even. Of a
quotient in between, the arithmetic makes that double, whatever the quotient is made from.
-/
import Scripting.Proofs.Number.Worth
import Mathlib.Tactic.Linarith
import Mathlib.Tactic.Positivity
import Mathlib.Tactic.Ring

namespace Scripting.Binary64

/-! ## Quotients of shifted numbers -/

/-- A power is a quotient of powers whose exponents are naturals, one of them zero. -/
theorem zpow_eq_div {b : ℚ} (hb : b ≠ 0) (n : Int) : b ^ n = b ^ n.toNat / b ^ (-n).toNat := by
  rw [← zpow_natCast, ← zpow_natCast, ← zpow_sub₀ hb]
  congr 1
  omega

/-- A quotient in units of a power of two. -/
theorem cast_shifted (num den : Nat) (e : Int) :
    ((num <<< (-e).toNat : Nat) : ℚ) / (den <<< e.toNat : Nat) = num / den / 2 ^ e := by
  rw [Nat.shiftLeft_eq, Nat.shiftLeft_eq, zpow_eq_div two_ne_zero e]
  push_cast
  rw [div_div_eq_mul_div, mul_div_right_comm, mul_div_assoc]
  field_simp

/-- A shifted number over the other part of the unit is the number in that unit. -/
theorem cast_unit (a : Nat) (e : Int) : ((a <<< e.toNat : Nat) : ℚ) / (1 <<< (-e).toNat : Nat) = a * 2 ^ e := by
  have h := cast_shifted a 1 (-e)
  rw [Int.neg_neg, zpow_neg, Nat.cast_one, div_one, div_inv_eq_mul] at h
  exact h

theorem two_zpow_pos (e : Int) : (0 : ℚ) < 2 ^ e := zpow_pos two_pos e

theorem two_zpow_lt {a b : Int} : (2 : ℚ) ^ a < 2 ^ b ↔ a < b := zpow_lt_zpow_iff_right₀ one_lt_two

/-- A quotient is compared with a power of two by shifting one of its parts. -/
theorem shifted_le_iff {num den : Nat} (hden : 0 < den) (k : Int) :
    den <<< k.toNat ≤ num <<< (-k).toNat ↔ (2 : ℚ) ^ k ≤ num / den := by
  have hpos : (0 : ℚ) < den := Nat.cast_pos.2 hden
  have hscale : (0 : ℚ) < 2 ^ (-k).toNat := by positivity
  rw [Nat.shiftLeft_eq, Nat.shiftLeft_eq, zpow_eq_div two_ne_zero k, div_le_div_iff₀ hscale hpos,
    mul_comm den]
  exact_mod_cast Iff.rfl

/-- The binary exponent of a quotient. -/
theorem binaryExponent_spec {num den : Nat} (hnum : 0 < num) (hden : 0 < den) :
    (2 : ℚ) ^ binaryExponent num den ≤ num / den ∧ (num : ℚ) / den < 2 ^ (binaryExponent num den + 1) := by
  have hdenpos : (0 : ℚ) < den := Nat.cast_pos.2 hden
  have hnumlow : (2 : ℚ) ^ num.log2 ≤ num := by exact_mod_cast Nat.log2_self_le hnum.ne'
  have hnumhigh : (num : ℚ) < 2 ^ (num.log2 + 1) := by exact_mod_cast Nat.lt_log2_self
  have hdenlow : (2 : ℚ) ^ den.log2 ≤ den := by exact_mod_cast Nat.log2_self_le hden.ne'
  have hdenhigh : (den : ℚ) < 2 ^ (den.log2 + 1) := by exact_mod_cast Nat.lt_log2_self
  have hbelow : (2 : ℚ) ^ ((num.log2 : Int) - den.log2 - 1) ≤ num / den := by
    rw [le_div_iff₀ hdenpos]
    calc (2 : ℚ) ^ ((num.log2 : Int) - den.log2 - 1) * den
        ≤ 2 ^ ((num.log2 : Int) - den.log2 - 1) * 2 ^ (den.log2 + 1) :=
          mul_le_mul_of_nonneg_left hdenhigh.le (two_zpow_pos _).le
      _ = 2 ^ num.log2 := by
          rw [← zpow_natCast, ← zpow_natCast, ← zpow_add₀ two_ne_zero]
          congr 1
          push_cast
          ring
      _ ≤ num := hnumlow
  have habove : (num : ℚ) / den < 2 ^ ((num.log2 : Int) - den.log2 + 1) := by
    rw [div_lt_iff₀ hdenpos]
    calc (num : ℚ) < 2 ^ (num.log2 + 1) := hnumhigh
      _ = 2 ^ ((num.log2 : Int) - den.log2 + 1) * 2 ^ den.log2 := by
          rw [← zpow_natCast, ← zpow_natCast, ← zpow_add₀ two_ne_zero]
          congr 1
          push_cast
          ring
      _ ≤ 2 ^ ((num.log2 : Int) - den.log2 + 1) * den := mul_le_mul_of_nonneg_left hdenlow (two_zpow_pos _).le
  unfold binaryExponent
  simp only
  split
  · rename_i h
    exact ⟨(shifted_le_iff hden _).1 h, habove⟩
  · rename_i h
    rw [shifted_le_iff hden, not_le] at h
    rw [sub_add_cancel]
    exact ⟨hbelow, h⟩

/-- A quotient of natural numbers as a natural number and a rest. -/
theorem cast_div_eq (num : Nat) {den : Nat} (hden : 0 < den) :
    (num : ℚ) / den = (num / den : Nat) + (num % den : Nat) / (den : ℚ) := by
  have hpos : (0 : ℚ) < den := Nat.cast_pos.2 hden
  have hcast : (num : ℚ) = den * (num / den : Nat) + (num % den : Nat) := by
    exact_mod_cast (Nat.div_add_mod num den).symm
  rw [hcast]
  field_simp

/-- The nearest natural number is no further than a half, and even at a half. -/
theorem roundQuotient_spec (num : Nat) {den : Nat} (hden : 0 < den) :
    (roundQuotient num den : ℚ) - 1 / 2 ≤ num / den ∧ (num : ℚ) / den ≤ roundQuotient num den + 1 / 2 ∧
      (roundQuotient num den % 2 = 1 →
        (roundQuotient num den : ℚ) - 1 / 2 < num / den ∧ (num : ℚ) / den < roundQuotient num den + 1 / 2) := by
  have hpos : (0 : ℚ) < den := Nat.cast_pos.2 hden
  have hrest : (0 : ℚ) ≤ (num % den : Nat) / (den : ℚ) := by positivity
  have hbelow : 2 * (num % den) < den ↔ (num % den : Nat) / (den : ℚ) < 1 / 2 := by
    rw [div_lt_div_iff₀ hpos two_pos, one_mul, mul_comm]
    exact_mod_cast Iff.rfl
  have habove : den < 2 * (num % den) ↔ 1 / 2 < (num % den : Nat) / (den : ℚ) := by
    rw [div_lt_div_iff₀ two_pos hpos, one_mul, mul_comm]
    exact_mod_cast Iff.rfl
  have hone : (num % den : Nat) / (den : ℚ) < 1 := by
    rw [div_lt_one hpos]
    exact_mod_cast Nat.mod_lt num hden
  rw [cast_div_eq num hden]
  generalize hr : ((num % den : Nat) / (den : ℚ)) = r at hrest hbelow habove hone
  unfold roundQuotient
  simp only
  split
  · rename_i h
    rw [hbelow] at h
    exact ⟨by linarith, by linarith, fun _ => ⟨by linarith, by linarith⟩⟩
  · rename_i h
    rw [hbelow, not_lt] at h
    split
    · rename_i h'
      rw [habove] at h'
      push_cast
      exact ⟨by linarith, by linarith, fun _ => ⟨by linarith, by linarith⟩⟩
    · rename_i h'
      rw [habove, not_lt] at h'
      split
      · exact ⟨by linarith, by linarith, fun hodd => by omega⟩
      · push_cast
        exact ⟨by linarith, by linarith, fun hodd => by omega⟩

theorem roundQuotient_eq_or (num den : Nat) :
    roundQuotient num den = num / den ∨ roundQuotient num den = num / den + 1 := by
  unfold roundQuotient
  simp only
  split
  · exact .inl rfl
  · split
    · exact .inr rfl
    · split
      · exact .inl rfl
      · exact .inr rfl

/-- A quotient no further than a half from a natural number is rounded to it, at a half if it is even. -/
theorem roundQuotient_eq {num den n : Nat} (hden : 0 < den) (hlow : (n : ℚ) - 1 / 2 ≤ num / den)
    (hhigh : (num : ℚ) / den ≤ n + 1 / 2)
    (hends : n % 2 = 1 → (n : ℚ) - 1 / 2 < num / den ∧ (num : ℚ) / den < n + 1 / 2) :
    roundQuotient num den = n := by
  obtain ⟨hlow', hhigh', hends'⟩ := roundQuotient_spec num hden
  generalize roundQuotient num den = m at hlow' hhigh' hends'
  -- two natural numbers with a half between them are neighbours, and one of them is odd
  rcases Nat.lt_trichotomy m n with hlt | heq | hgt
  · have hle : (m : ℚ) + 1 ≤ n := by exact_mod_cast hlt
    have hnext : (m : ℚ) + 1 = n := by linarith
    have hsucc : m + 1 = n := by exact_mod_cast hnext
    rcases Nat.mod_two_eq_zero_or_one n with hn | hn
    · have hm := hends' (by omega)
      linarith [hm.2]
    · have hn := hends hn
      linarith [hn.1]
  · exact heq
  · have hle : (n : ℚ) + 1 ≤ m := by exact_mod_cast hgt
    have hnext : (n : ℚ) + 1 = m := by linarith
    have hsucc : n + 1 = m := by exact_mod_cast hnext
    rcases Nat.mod_two_eq_zero_or_one m with hm | hm
    · have hn := hends (by omega)
      linarith [hn.2]
    · have hm := hends' hm
      linarith [hm.1]

/-! ## The interval of a double -/

/-- What a double is worth without its sign. -/
def magnitude (x : Binary64) : ℚ := x.significand * 2 ^ x.exponent

theorem worth_eq (x : Binary64) : x.worth = (if x.signBit then -1 else 1) * x.magnitude := by
  rw [worth, signed, magnitude]
  split <;> simp

/-- How far below its significand the rationals begin that round to a double, in units of its last place: the
double below a power of two is only half as far away. -/
def reach (x : Binary64) : ℚ := if x.fractionField = 0 ∧ 1 < x.exponentField then 1 / 4 else 1 / 2

/-- A rational is so near to the magnitude of a double that it rounds to it. -/
def Near (q : ℚ) (x : Binary64) : Prop :=
  (x.significand - x.reach) * 2 ^ x.exponent ≤ q ∧ q ≤ (x.significand + 1 / 2) * 2 ^ x.exponent ∧
    (x.significand % 2 = 1 →
      (x.significand - x.reach) * 2 ^ x.exponent < q ∧ q < (x.significand + 1 / 2) * 2 ^ x.exponent)

theorem fractionField_lt (x : Binary64) : x.fractionField < hiddenBit := by
  rw [fractionField_eq]
  exact Nat.mod_lt _ (by decide)

theorem exponentField_lt {x : Binary64} (h : x.isFinite = true) : x.exponentField < 0x7FF := by
  have hlt : x.exponentField < 2 ^ 11 := by
    rw [exponentField_eq]
    exact Nat.mod_lt _ (by decide)
  rw [isFinite, bne_iff_ne] at h
  omega

/-- The double that a significand makes with its own exponent. -/
theorem ofSignificand_significand (negative : Bool) {x : Binary64} (h : x.isFinite = true) :
    ofSignificand negative x.significand x.exponent = ofFields negative x.exponentField x.fractionField := by
  have hf := fractionField_lt x
  have he := exponentField_lt h
  unfold ofSignificand significand exponent
  by_cases hzero : x.exponentField = 0
  · rw [if_pos hzero, if_pos hzero, if_neg (by omega)]
    simp only
    rw [if_pos hf, hzero]
  · rw [if_neg hzero, if_neg hzero, if_neg (by omega)]
    simp only
    rw [if_neg (by omega), if_neg (by omega), Nat.add_sub_cancel, Int.sub_add_cancel, Int.toNat_natCast]

/-- The sizes of the parts of a finite double: below the least normal number the exponent does not go. -/
theorem significand_cases {x : Binary64} (h : x.isFinite = true) :
    (x.exponentField = 0 ∧ x.exponent = -1074 ∧ x.significand < hiddenBit) ∨
      (1 ≤ x.exponentField ∧ -1074 ≤ x.exponent ∧ x.exponent ≤ 971 ∧ x.exponent = x.exponentField - 1075 ∧
        hiddenBit ≤ x.significand ∧ x.significand < 2 * hiddenBit) := by
  have hf := fractionField_lt x
  have he := exponentField_lt h
  unfold significand exponent
  by_cases hzero : x.exponentField = 0
  · rw [if_pos hzero, if_pos hzero]
    exact .inl ⟨hzero, rfl, hf⟩
  · rw [if_neg hzero, if_neg hzero]
    exact .inr ⟨by omega, by omega, by omega, rfl, by omega, by omega⟩

/-- A significand that is rounded up to one bit more is the least of that length in the next unit. -/
theorem ofSignificand_carry (negative : Bool) (e : Int) :
    ofSignificand negative (2 * hiddenBit) (e - 1) = ofSignificand negative hiddenBit e := by
  unfold ofSignificand
  rw [if_pos rfl, if_neg (by decide), Int.sub_add_cancel]

/-- A double of more than the least exponent that a rational below its binade rounds to is a power of two. -/
theorem significand_of_below {x : Binary64} (hx : x.isFinite = true) (he : x.exponent ≠ -1074) {q : ℚ}
    (hlow : (x.significand - x.reach) * 2 ^ x.exponent ≤ q) (hq : q < 2 ^ (x.exponent + 52)) :
    x.significand = hiddenBit ∧ x.reach = 1 / 4 := by
  have hhidden : (hiddenBit : ℚ) = 2 ^ (52 : Int) := by norm_num [hiddenBit]
  have hreach : x.reach ≤ 1 / 2 := by
    unfold reach
    split <;> norm_num
  rcases significand_cases hx with ⟨-, he', -⟩ | ⟨hfield, -, -, he', hm, -⟩
  · exact absurd he' he
  have hlt : (x.significand : ℚ) - x.reach < hiddenBit := by
    rw [zpow_add₀ two_ne_zero, ← hhidden, mul_comm] at hq
    exact lt_of_mul_lt_mul_right (hlow.trans_lt hq) (two_zpow_pos _).le
  have hmq : (x.significand : ℚ) < (hiddenBit + 1 : Nat) := by
    push_cast
    linarith
  have heq : x.significand = hiddenBit := by
    have hsucc : x.significand < hiddenBit + 1 := by exact_mod_cast hmq
    omega
  have hfraction : x.fractionField = 0 := by
    rw [significand, if_neg (by omega)] at heq
    omega
  exact ⟨heq, if_pos ⟨hfraction, by omega⟩⟩

/-- A quotient that is near to a double is rounded to it. -/
theorem ofQuotient_of_near {x : Binary64} (hx : x.isFinite = true) (hne : x.significand ≠ 0) {num den : Nat}
    (hden : 0 < den) (h : Near (num / den) x) (negative : Bool) :
    ofQuotient negative num den = ofFields negative x.exponentField x.fractionField := by
  obtain ⟨hlow, hhigh, hends⟩ := h
  have hunit := two_zpow_pos x.exponent
  have hreach : x.reach ≤ 1 / 2 := by
    unfold reach
    split <;> norm_num
  have hone : (1 : ℚ) ≤ x.significand := by exact_mod_cast Nat.one_le_iff_ne_zero.2 hne
  have hhidden : (hiddenBit : ℚ) = 2 ^ (52 : Int) := by norm_num [hiddenBit]
  have hnum : 0 < num := by
    rw [Nat.pos_iff_ne_zero]
    rintro rfl
    rw [Nat.cast_zero, zero_div] at hlow
    nlinarith
  obtain ⟨hfrom, hto⟩ := binaryExponent_spec hnum hden
  rw [← ofSignificand_significand negative hx, ofQuotient, if_neg hnum.ne']
  simp only
  generalize binaryExponent num den = k at hfrom hto
  have hshifted : ∀ e : Int, 0 < den <<< e.toNat := by
    intro e
    rw [Nat.shiftLeft_eq]
    positivity
  -- in the unit of the double the quotient is next to its significand
  have hsame : max (k - 52) (-1074) = x.exponent →
      ofSignificand negative
        (roundQuotient (num <<< (-max (k - 52) (-1074)).toNat) (den <<< (max (k - 52) (-1074)).toNat))
        (max (k - 52) (-1074)) = ofSignificand negative x.significand x.exponent := by
    intro he
    rw [he]
    congr 1
    refine roundQuotient_eq (hshifted _) ?_ ?_ fun hodd => ?_
    · rw [cast_shifted, le_div_iff₀ hunit]
      nlinarith
    · rw [cast_shifted, div_le_iff₀ hunit]
      exact hhigh
    · obtain ⟨hlow, hhigh⟩ := hends hodd
      rw [cast_shifted, lt_div_iff₀ hunit, div_lt_iff₀ hunit]
      exact ⟨by nlinarith, hhigh⟩
  generalize hquotient : (num : ℚ) / den = q at *
  have hbinade : (2 : ℚ) ^ (x.exponent + 52) = hiddenBit * 2 ^ x.exponent := by
    rw [zpow_add₀ two_ne_zero, ← hhidden, mul_comm]
  rcases lt_or_ge q (2 ^ (x.exponent + 52)) with hq | hq
  · have hk : k < x.exponent + 52 := two_zpow_lt.1 (hfrom.trans_lt hq)
    by_cases hleast : x.exponent = -1074
    · exact hsame (by omega)
    · -- below a power of two the unit is half of that above, and the quotient is rounded up to the power
      obtain ⟨hm, hquarter⟩ := significand_of_below hx hleast hlow hq
      have hexp : -1074 < x.exponent := by
        rcases significand_cases hx with ⟨-, he, -⟩ | ⟨-, he, -⟩ <;> omega
      have hhalf : (2 : ℚ) ^ x.exponent = 2 * 2 ^ (x.exponent - 1) := by
        rw [← zpow_one_add₀ two_ne_zero]
        congr 1
        ring
      rw [hm, hquarter] at hlow
      have hk' : x.exponent + 51 < k + 1 := by
        refine two_zpow_lt.1 (lt_of_lt_of_le ?_ (hlow.trans hto.le))
        have hpow : (2 : ℚ) ^ (x.exponent + 51) = hiddenBit * 2 ^ (x.exponent - 1) := by
          rw [hhidden, ← zpow_add₀ two_ne_zero]
          congr 1
          ring
        rw [hpow, hhalf]
        have hbig : (1 : ℚ) < hiddenBit := by norm_num [hiddenBit]
        have hunit' := two_zpow_pos (x.exponent - 1)
        nlinarith
      have he : max (k - 52) (-1074) = x.exponent - 1 := by omega
      have hunit' := two_zpow_pos (x.exponent - 1)
      rw [he, hm, ← ofSignificand_carry]
      congr 1
      refine roundQuotient_eq (hshifted _) ?_ ?_ fun hodd => ?_
      · rw [cast_shifted, hquotient, le_div_iff₀ hunit']
        push_cast
        rw [hhalf] at hlow
        nlinarith
      · rw [cast_shifted, hquotient, div_le_iff₀ hunit']
        push_cast
        rw [hbinade, hhalf] at hq
        nlinarith
      · exact absurd hodd (by decide)
  · refine hsame ?_
    rcases significand_cases hx with ⟨-, he, hm⟩ | ⟨-, he, -, -, hm, hm'⟩
    · -- no number of the least exponent without the leading bit is so great
      have hlt : (x.significand : ℚ) + 1 ≤ hiddenBit := by exact_mod_cast hm
      rw [hbinade] at hq
      nlinarith
    · have hlt : (x.significand : ℚ) + 1 ≤ 2 * hiddenBit := by exact_mod_cast hm'
      have hnext : q < 2 ^ (x.exponent + 52 + 1) := by
        rw [zpow_add_one₀ two_ne_zero, hbinade]
        nlinarith
      have hbelow := two_zpow_lt.1 (hq.trans_lt hto)
      have habove := two_zpow_lt.1 (hfrom.trans_lt hnext)
      omega

end Scripting.Binary64
