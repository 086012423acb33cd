/-
The shortest digits of a double. They are found on the first decimal grid that has a point near to the double, and the
grid of seventeen digits always has one; so they round back to the double, whatever other digits would do so too.
-/
import Scripting.Proofs.Number.Rounding
import Scripting.Number.Decimal

namespace Scripting.Decimal

open Binary64 (Near magnitude)

/-! ## Powers of ten and of two -/

/-- The magnitude that digits and a scale stand for. -/
def value (d : Decimal) : ℚ := d.digits * 10 ^ d.scale

theorem ten_zpow_pos (k : Int) : (0 : ℚ) < 10 ^ k := zpow_pos (by norm_num) k

/-- One comparison of powers gives all those whose exponents are in no greater ratio. -/
theorem pow_le_pow_of_ratio {a b p q i j : Nat} (hb : 0 < b) (hp : p ≠ 0) (hq : q ≠ 0) (h : a ^ p ≤ b ^ q)
    (hij : i * q ≤ j * p) : a ^ i ≤ b ^ j := by
  refine (Nat.pow_le_pow_iff_left (Nat.mul_ne_zero hp hq)).1 ?_
  calc (a ^ i) ^ (p * q) = (a ^ p) ^ (i * q) := by
        rw [← Nat.pow_mul, ← Nat.pow_mul]
        congr 1
        ring
    _ ≤ (b ^ q) ^ (i * q) := Nat.pow_le_pow_left h _
    _ ≤ (b ^ q) ^ (j * p) := Nat.pow_le_pow_right (Nat.pow_pos hb) hij
    _ = (b ^ j) ^ (p * q) := by
        rw [← Nat.pow_mul, ← Nat.pow_mul]
        congr 1
        ring

theorem two_pow_le : 2 ^ 100000 ≤ 10 ^ 30103 := by decide +kernel

theorem le_two_pow : 10 ^ 30102 ≤ 2 ^ 100000 := by decide +kernel

/-- The logarithm of two lies between `0.30102` and `0.30103`. -/
theorem two_zpow_le_ten_zpow {k a : Int} (h : 30103 * k ≤ 100000 * a) (h' : 30102 * k ≤ 100000 * a) :
    (2 : ℚ) ^ k ≤ 10 ^ a := by
  rcases Int.le_total 0 k with hk | hk
  · obtain ⟨n, rfl⟩ := Int.eq_ofNat_of_zero_le hk
    obtain ⟨m, rfl⟩ := Int.eq_ofNat_of_zero_le (by omega : 0 ≤ a)
    have hle : 2 ^ n ≤ 10 ^ m := pow_le_pow_of_ratio (by decide) (by decide) (by decide) two_pow_le (by omega)
    rw [zpow_natCast, zpow_natCast]
    exact_mod_cast hle
  · obtain ⟨n, hn⟩ := Int.eq_ofNat_of_zero_le (Int.neg_nonneg.2 hk)
    obtain rfl : k = -(n : Int) := by omega
    rcases Int.le_total 0 a with ha | ha
    · calc (2 : ℚ) ^ (-(n : Int)) ≤ 2 ^ (0 : Int) := zpow_le_zpow_right₀ one_le_two (by omega)
        _ = 10 ^ (0 : Int) := rfl
        _ ≤ 10 ^ a := zpow_le_zpow_right₀ (by norm_num) ha
    · obtain ⟨m, hm⟩ := Int.eq_ofNat_of_zero_le (Int.neg_nonneg.2 ha)
      obtain rfl : a = -(m : Int) := by omega
      have hle : 10 ^ m ≤ 2 ^ n := pow_le_pow_of_ratio (by decide) (by decide) (by decide) le_two_pow (by omega)
      rw [zpow_neg, zpow_neg, zpow_natCast, zpow_natCast]
      exact inv_anti₀ (by positivity) (by exact_mod_cast hle)

/-! ## The decimal exponent -/

/-- A quotient is compared with a power of ten by a multiple of one of its parts. -/
theorem below_iff {num den : Nat} (hden : 0 < den) (k : Int) :
    decimalExponent.below num den k = true ↔ (10 : ℚ) ^ k ≤ num / den := by
  have hpos : (0 : ℚ) < den := Nat.cast_pos.2 hden
  have hscale : (0 : ℚ) < 10 ^ (-k).toNat := by positivity
  rw [decimalExponent.below, decide_eq_true_iff, Binary64.zpow_eq_div (by norm_num) k,
    div_le_div_iff₀ hscale hpos, mul_comm den]
  exact_mod_cast Iff.rfl

/-- The search upwards comes to the greatest power of ten that is not greater, if that is within reach. -/
theorem climb_spec {num den : Nat} (hden : 0 < den) (n : Nat) {k : Int} (hlow : (10 : ℚ) ^ k ≤ num / den)
    (hhigh : (num : ℚ) / den < 10 ^ (k + n + 1)) :
    (10 : ℚ) ^ decimalExponent.climb num den n k ≤ num / den ∧
      (num : ℚ) / den < 10 ^ (decimalExponent.climb num den n k + 1) := by
  induction n generalizing k with
  | zero =>
    rw [Nat.cast_zero, add_zero] at hhigh
    exact ⟨hlow, hhigh⟩
  | succ n ih =>
    unfold decimalExponent.climb
    split
    · rename_i h
      refine ih ((below_iff hden _).1 h) ?_
      push_cast at hhigh
      rwa [add_assoc k 1, add_comm 1]
    · rename_i h
      rw [below_iff hden, not_le] at h
      exact ⟨hlow, h⟩

/-- The decimal exponent of a quotient whose binary exponent is of moderate size. -/
theorem decimalExponent_spec {num den : Nat} (hnum : 0 < num) (hden : 0 < den)
    (hfrom : -2000 ≤ Binary64.binaryExponent num den) (hto : Binary64.binaryExponent num den ≤ 2000) :
    (10 : ℚ) ^ decimalExponent num den ≤ num / den ∧ (num : ℚ) / den < 10 ^ (decimalExponent num den + 1) := by
  obtain ⟨hlow, hhigh⟩ := Binary64.binaryExponent_spec hnum hden
  unfold decimalExponent
  simp only
  generalize Binary64.binaryExponent num den = k at *
  refine climb_spec hden 4 ?_ ?_
  · have hinv := two_zpow_le_ten_zpow (k := -k) (a := -(k * 30103 / 100000 - 1)) (by omega) (by omega)
    rw [zpow_neg, zpow_neg, inv_le_inv₀ (Binary64.two_zpow_pos k) (ten_zpow_pos _)] at hinv
    exact hinv.trans hlow
  · exact hhigh.trans_le (two_zpow_le_ten_zpow (by push_cast; omega) (by push_cast; omega))

/-! ## The grids -/

section Grids

variable {x : Binary64}

theorem tenTo_pos (n : Nat) : 0 < tenTo n := Nat.pow_pos (by decide)

theorem cast_tenTo (n : Nat) : (tenTo n : ℚ) = 10 ^ n := Nat.cast_pow 10 n

theorem den_pos : 0 < (interval x).den := by
  rw [interval, Nat.one_shiftLeft]
  exact Nat.two_pow_pos _

theorem quarter_unit : (2 : ℚ) ^ x.exponent = 4 * 2 ^ (x.exponent - 2) := by
  rw [zpow_sub₀ two_ne_zero]
  norm_num
  ring

theorem cast_value : ((interval x).value : ℚ) / (interval x).den = x.magnitude := by
  unfold interval
  simp only
  rw [Binary64.cast_unit, magnitude, quarter_unit]
  push_cast
  ring

theorem cast_high : ((interval x).high : ℚ) / (interval x).den = (x.significand + 1 / 2) * 2 ^ x.exponent := by
  unfold interval
  simp only
  rw [Binary64.cast_unit, quarter_unit]
  push_cast
  ring

theorem cast_low (hx : x.significand ≠ 0) :
    ((interval x).low : ℚ) / (interval x).den = (x.significand - x.reach) * 2 ^ x.exponent := by
  unfold interval Binary64.reach
  simp only
  rw [Binary64.cast_unit, quarter_unit]
  split
  · rw [Nat.cast_sub (by omega)]
    push_cast
    ring
  · rw [Nat.cast_sub (by omega)]
    push_cast
    ring

/-- A decimal is tried against the interval of a double by whether it is near to it. -/
theorem holds_iff (hx : x.significand ≠ 0) (c : Nat) (scale : Int) :
    (interval x).holds c scale = true ↔ Near (c * 10 ^ scale) x := by
  have hden : (0 : ℚ) < (interval x).den := Nat.cast_pos.2 den_pos
  have hscale : (0 : ℚ) < 10 ^ (-scale).toNat := by positivity
  have hclosed : (interval x).closed = (x.significand % 2 == 0) := rfl
  -- the comparisons are made in natural numbers, over one unit
  have hpower : (c : ℚ) * 10 ^ scale = (c * tenTo scale.toNat : Nat) / (tenTo (-scale).toNat : Nat) := by
    rw [Binary64.zpow_eq_div (by norm_num), Nat.cast_mul, cast_tenTo, cast_tenTo, mul_div_assoc]
  have hunit : (0 : ℚ) < tenTo (-scale).toNat := Nat.cast_pos.2 (tenTo_pos _)
  unfold Near
  rw [← cast_low hx, ← cast_high, hpower, div_le_div_iff₀ hden hunit, div_le_div_iff₀ hunit hden,
    div_lt_div_iff₀ hden hunit, div_lt_div_iff₀ hunit hden, Interval.holds, hclosed]
  norm_cast
  split
  · rename_i heven
    rw [beq_iff_eq] at heven
    rw [Bool.and_eq_true, decide_eq_true_iff, decide_eq_true_iff]
    constructor
    · rintro ⟨hlow, hhigh⟩
      exact ⟨hlow, hhigh, fun hodd => by omega⟩
    · rintro ⟨hlow, hhigh, -⟩
      exact ⟨hlow, hhigh⟩
  · rename_i hodd
    rw [beq_iff_eq] at hodd
    rw [Bool.and_eq_true, decide_eq_true_iff, decide_eq_true_iff]
    constructor
    · rintro ⟨hlow, hhigh⟩
      exact ⟨hlow.le, hhigh.le, fun _ => ⟨hlow, hhigh⟩⟩
    · rintro ⟨-, -, hends⟩
      exact hends (by omega)

/-- The point of a grid that is next below a double. -/
def gridBelow (x : Binary64) (scale : Int) : Nat :=
  (interval x).value * tenTo (-scale).toNat / ((interval x).den * tenTo scale.toNat)

theorem gridBelow_spec (scale : Int) :
    gridBelow x scale * 10 ^ scale ≤ x.magnitude ∧ x.magnitude < (gridBelow x scale + 1) * 10 ^ scale := by
  have hden : 0 < (interval x).den * tenTo scale.toNat := Nat.mul_pos den_pos (tenTo_pos _)
  have hdenq : (0 : ℚ) < ((interval x).den * tenTo scale.toNat : Nat) := Nat.cast_pos.2 hden
  have hpos := ten_zpow_pos scale
  have hquotient : (((interval x).value * tenTo (-scale).toNat : Nat) : ℚ) /
      ((interval x).den * tenTo scale.toNat : Nat) = x.magnitude / 10 ^ scale := by
    rw [← cast_value, Binary64.zpow_eq_div (by norm_num) scale, Nat.cast_mul, Nat.cast_mul, cast_tenTo, cast_tenTo,
      div_div_div_eq]
  have hsplit := Binary64.cast_div_eq ((interval x).value * tenTo (-scale).toNat) hden
  have hrest : (((interval x).value * tenTo (-scale).toNat % ((interval x).den * tenTo scale.toNat) : Nat) : ℚ) /
      ((interval x).den * tenTo scale.toNat : Nat) < 1 := by
    rw [div_lt_one hdenq]
    exact_mod_cast Nat.mod_lt _ hden
  have hnonneg : (0 : ℚ) ≤
      (((interval x).value * tenTo (-scale).toNat % ((interval x).den * tenTo scale.toNat) : Nat) : ℚ) /
        ((interval x).den * tenTo scale.toNat : Nat) := by positivity
  rw [hquotient, ← gridBelow] at hsplit
  rw [← le_div_iff₀ hpos, ← div_lt_iff₀ hpos, hsplit]
  exact ⟨by linarith, by linarith⟩

/-- What is found on a grid is one of the two neighbours of the double there, and is near to it. -/
theorem onGrid_some (hx : x.significand ≠ 0) {scale : Int} {c : Nat} (h : (interval x).onGrid scale = some c) :
    Near (c * 10 ^ scale) x ∧ c ≤ gridBelow x scale + 1 := by
  unfold Interval.onGrid at h
  simp only at h
  split at h
  · rename_i hbelow habove
    cases h
    rw [holds_iff hx] at hbelow habove
    rcases Binary64.roundQuotient_eq_or ((interval x).value * tenTo (-scale).toNat)
      ((interval x).den * tenTo scale.toNat) with hround | hround
    · rw [hround]
      exact ⟨hbelow, Nat.le_succ _⟩
    · rw [hround]
      exact ⟨habove, le_rfl⟩
  · rename_i hbelow _
    cases h
    exact ⟨(holds_iff hx _ _).1 hbelow, Nat.le_succ _⟩
  · rename_i _ habove
    cases h
    exact ⟨(holds_iff hx _ _).1 habove, le_rfl⟩
  · cases h

/-- On a grid that is finer than the interval something is found. -/
theorem onGrid_isSome (hx : x.significand ≠ 0) {scale : Int}
    (h : (10 : ℚ) ^ scale < (1 / 2 + x.reach) * 2 ^ x.exponent) : ((interval x).onGrid scale).isSome = true := by
  have hunit := Binary64.two_zpow_pos x.exponent
  have hreach : 0 < x.reach := by
    unfold Binary64.reach
    split <;> norm_num
  obtain ⟨hfloor, hceil⟩ := gridBelow_spec (x := x) scale
  have hnone : ¬ (¬ Near (gridBelow x scale * 10 ^ scale) x ∧ ¬ Near ((gridBelow x scale + 1 : Nat) * 10 ^ scale) x) := by
    rintro ⟨hbelow, habove⟩
    -- neither neighbour is inside, so the interval is no wider than the grid
    have hlow : (gridBelow x scale : ℚ) * 10 ^ scale ≤ (x.significand - x.reach) * 2 ^ x.exponent := by
      by_contra hlow
      rw [not_le] at hlow
      have hhigh : (gridBelow x scale : ℚ) * 10 ^ scale < (x.significand + 1 / 2) * 2 ^ x.exponent := by
        rw [magnitude] at hfloor
        nlinarith
      exact hbelow ⟨hlow.le, hhigh.le, fun _ => ⟨hlow, hhigh⟩⟩
    have hhigh : (x.significand + 1 / 2) * 2 ^ x.exponent ≤ ((gridBelow x scale + 1 : Nat) : ℚ) * 10 ^ scale := by
      by_contra hhigh
      rw [not_le] at hhigh
      have hlow : (x.significand - x.reach) * 2 ^ x.exponent < ((gridBelow x scale + 1 : Nat) : ℚ) * 10 ^ scale := by
        rw [magnitude] at hceil
        push_cast
        nlinarith
      exact habove ⟨hlow.le, hhigh.le, fun _ => ⟨hlow, hhigh⟩⟩
    push_cast at hhigh
    nlinarith
  unfold Interval.onGrid
  simp only
  rw [← holds_iff hx, ← holds_iff hx] at hnone
  unfold gridBelow at hnone
  split
  · rfl
  · rfl
  · rfl
  · rename_i hbelow habove
    exact absurd ⟨by rw [hbelow]; decide, by rw [habove]; decide⟩ hnone

/-! ## The digits -/

theorem search_spec (i : Interval) (top : Int) (fuel n n' : Nat) (hle : n ≤ n') (hlt : n' < n + fuel)
    (h : (i.onGrid (top - n')).isSome = true) :
    ∃ m c, m ≤ n' ∧ i.onGrid (top - m) = some c ∧ shortest.search i top fuel n = ⟨c, top - m⟩ := by
  induction fuel generalizing n with
  | zero => omega
  | succ fuel ih =>
    unfold shortest.search
    split
    · rename_i c hc
      exact ⟨n, c, hle, hc, rfl⟩
    · rename_i hc
      rcases Nat.lt_or_eq_of_le hle with hlt' | rfl
      · exact ih _ hlt' (by omega)
      · rw [hc] at h
        cases h

theorem trim_go_spec (n : Nat) (d : Decimal) :
    (trim.go n d).value = d.value ∧ (trim.go n d).digits ≤ d.digits ∧ (d.digits ≠ 0 → (trim.go n d).digits ≠ 0) := by
  induction n generalizing d with
  | zero => exact ⟨rfl, le_rfl, id⟩
  | succ n ih =>
    unfold trim.go
    split
    · rename_i h
      obtain ⟨hvalue, hle, hne⟩ := ih ⟨d.digits / 10, d.scale + 1⟩
      refine ⟨hvalue.trans ?_, hle.trans (Nat.div_le_self _ _), fun _ => hne ?_⟩
      · have hten : (d.digits : ℚ) = (d.digits / 10 : Nat) * 10 := by
          exact_mod_cast (Nat.div_mul_cancel (Nat.dvd_of_mod_eq_zero h.2)).symm
        rw [value, value, hten, zpow_add_one₀ (by norm_num)]
        ring
      · show d.digits / 10 ≠ 0
        omega
    · exact ⟨rfl, le_rfl, id⟩

/-- The size of a finite double other than zero. -/
theorem magnitude_bounds (hx : x.isFinite = true) (hne : x.significand ≠ 0) :
    (2 : ℚ) ^ (-1074 : Int) ≤ x.magnitude ∧ x.magnitude < 2 ^ (1024 : Int) := by
  have hone : (1 : ℚ) ≤ x.significand := by exact_mod_cast Nat.one_le_iff_ne_zero.2 hne
  have hsizes : -1074 ≤ x.exponent ∧ x.exponent ≤ 971 ∧ x.significand < 2 ^ 53 := by
    rcases Binary64.significand_cases hx with ⟨-, he, hm⟩ | ⟨-, he, he', -, -, hm⟩ <;>
      simp only [Binary64.hiddenBit] at hm <;> omega
  obtain ⟨hfrom, hto, hm⟩ := hsizes
  have hmq : (x.significand : ℚ) < 2 ^ (53 : Int) := by exact_mod_cast hm
  constructor
  · calc (2 : ℚ) ^ (-1074 : Int) ≤ 1 * 2 ^ x.exponent := by
          rw [one_mul]
          exact zpow_le_zpow_right₀ one_le_two hfrom
      _ ≤ x.significand * 2 ^ x.exponent := mul_le_mul_of_nonneg_right hone (Binary64.two_zpow_pos _).le
  · calc x.significand * 2 ^ x.exponent < (2 : ℚ) ^ (53 : Int) * 2 ^ x.exponent :=
          mul_lt_mul_of_pos_right hmq (Binary64.two_zpow_pos _)
      _ = 2 ^ (53 + x.exponent) := (zpow_add₀ two_ne_zero _ _).symm
      _ ≤ 2 ^ (1024 : Int) := zpow_le_zpow_right₀ one_le_two (by omega)

/-- The decimal exponent that the search starts from is that of the double. -/
theorem top_spec (hx : x.isFinite = true) (hne : x.significand ≠ 0) :
    (10 : ℚ) ^ decimalExponent (interval x).value (interval x).den ≤ x.magnitude ∧
      x.magnitude < 10 ^ (decimalExponent (interval x).value (interval x).den + 1) := by
  obtain ⟨hlow, hhigh⟩ := magnitude_bounds hx hne
  have hvalue : 0 < (interval x).value := by
    show 0 < (4 * x.significand) <<< (x.exponent - 2).toNat
    rw [Nat.shiftLeft_eq]
    positivity
  obtain ⟨hfrom, hto⟩ := Binary64.binaryExponent_spec hvalue (den_pos (x := x))
  rw [cast_value] at hfrom hto
  have hleast := Binary64.two_zpow_lt.1 (hlow.trans_lt hto)
  have hgreatest := Binary64.two_zpow_lt.1 (hfrom.trans_lt hhigh)
  have hspec := decimalExponent_spec hvalue (den_pos (x := x)) (by omega) (by omega)
  rwa [cast_value] at hspec

/-- Seventeen digits are a grid that is finer than the interval. -/
theorem seventeen_digits (hx : x.isFinite = true) {top : Int} (h : (10 : ℚ) ^ top ≤ x.magnitude) :
    (10 : ℚ) ^ (top - 16) < (1 / 2 + x.reach) * 2 ^ x.exponent := by
  have hunit := Binary64.two_zpow_pos x.exponent
  have hscaled : (10 : ℚ) ^ (top - 16) * 10 ^ 16 ≤ x.significand * 2 ^ x.exponent := by
    have hshift : (10 : ℚ) ^ (top - 16) * 10 ^ 16 = 10 ^ top := by
      rw [← zpow_natCast, ← zpow_add₀ (by norm_num)]
      congr 1
      push_cast
      ring
    rw [hshift]
    exact h
  unfold Binary64.reach
  split
  · -- a power of two
    rename_i hpower
    have hm : x.significand = 2 ^ 52 := by
      rw [Binary64.significand, if_neg (by omega), hpower.1]
      rfl
    rw [hm] at hscaled
    push_cast at hscaled
    nlinarith
  · have hm : x.significand < 2 ^ 53 := by
      rcases Binary64.significand_cases hx with ⟨-, -, hm⟩ | ⟨-, -, -, -, -, hm⟩ <;>
        simp only [Binary64.hiddenBit] at hm <;> omega
    have hmq : (x.significand : ℚ) < 2 ^ 53 := by exact_mod_cast hm
    nlinarith

/-- The shortest digits of a finite double round to it, and are at most seventeen. -/
theorem shortest_spec (hx : x.isFinite = true) (hne : x.significand ≠ 0) :
    Near (shortest x).value x ∧ (shortest x).digits ≠ 0 ∧ (shortest x).digits ≤ 10 ^ 17 := by
  obtain ⟨hlow, hhigh⟩ := top_spec hx hne
  have hunit := Binary64.two_zpow_pos x.exponent
  unfold shortest
  simp only
  generalize decimalExponent (interval x).value (interval x).den = top at hlow hhigh
  obtain ⟨n, c, hn, hc, hfound⟩ := search_spec (interval x) top 17 0 16 (by omega) (by omega)
    (onGrid_isSome hne (seventeen_digits hx hlow))
  obtain ⟨hnear, hle⟩ := onGrid_some hne hc
  obtain ⟨hvalue, hdigits, hzero⟩ := trim_go_spec (c.log2 + 1) ⟨c, top - n⟩
  rw [hfound]
  show Near (trim.go (c.log2 + 1) ⟨c, top - n⟩).value x ∧ _
  rw [hvalue]
  refine ⟨hnear, hzero ?_, hdigits.trans ?_⟩
  · -- zero is too far away
    rintro rfl
    have hone : (1 : ℚ) ≤ x.significand := by exact_mod_cast Nat.one_le_iff_ne_zero.2 hne
    have hreach : x.reach ≤ 1 / 2 := by
      unfold Binary64.reach
      split <;> norm_num
    have hzero := hnear.1
    rw [Nat.cast_zero, zero_mul] at hzero
    nlinarith
  · have hgrid : (gridBelow x (top - n) : ℚ) < 10 ^ (n + 1) := by
      have hfloor := (gridBelow_spec (x := x) (top - n)).1.trans_lt hhigh
      have hpower : (10 : ℚ) ^ (top + 1) = 10 ^ (n + 1) * 10 ^ (top - n) := by
        rw [← zpow_natCast, ← zpow_add₀ (by norm_num)]
        congr 1
        push_cast
        ring
      rw [hpower] at hfloor
      exact lt_of_mul_lt_mul_right hfloor (ten_zpow_pos _).le
    have hgrid' : gridBelow x (top - n) < 10 ^ (n + 1) := by exact_mod_cast hgrid
    calc c ≤ gridBelow x (top - n) + 1 := hle
      _ ≤ 10 ^ (n + 1) := hgrid'
      _ ≤ 10 ^ 17 := Nat.pow_le_pow_right (by decide) (by omega)

end Grids

end Scripting.Decimal
