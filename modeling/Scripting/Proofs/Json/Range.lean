/-
Which doubles are read from their texts at all. Digits are put in their scale by one product of doubles, which may
round past the end of the range where the double itself does not. That happens to the greatest double alone, and only
when it is laid out without an exponent.
-/
import Scripting.Proofs.Json.Doubles

namespace Scripting.Json

open Binary64 (Near ofNat)

variable {x : Binary64}

/-! ## Products within the range -/

/-- The rounding of an operand and of the result make digits greater by no more than this. -/
def slack : ℚ := (1 + 2 ^ (-53 : Int)) ^ 2

theorem one_le_slack : 1 ≤ slack := by norm_num [slack]

theorem ten_pow_lt_overflow : (10 : ℚ) ^ 308 < Binary64.overflow := by
  have hlt : 10 ^ 308 < 18014398509481983 * 2 ^ 970 := by decide +kernel
  have hunit : (2 : ℚ) ^ (970 : Int) = (2 ^ 970 : Nat) := by
    rw [Nat.cast_pow, Nat.cast_ofNat, ← zpow_natCast]
    rfl
  have hcast : (10 : ℚ) ^ 308 = (10 ^ 308 : Nat) := by rw [Nat.cast_pow, Nat.cast_ofNat]
  rw [Binary64.overflow, hunit, hcast]
  generalize 10 ^ 308 = p at hlt
  generalize 2 ^ 970 = u at hlt
  norm_num
  exact_mod_cast hlt

/-- A power of ten is rounded once. -/
theorem powerOfTen_eq {k : Nat} (h : k ≤ 308) :
    powerOfTen k = Binary64.ofQuotient false (1 * Decimal.tenTo k) (Decimal.tenTo 0) := by
  have hlog : Nat.log2 1 = 0 := rfl
  rw [powerOfTen, Decimal.toBinary64]
  simp only [hlog]
  rw [if_neg (by decide), if_neg (by omega), if_neg (by omega), Int.toNat_natCast]
  congr 2
  omega

theorem powerOfTen_le {k : Nat} (h : k ≤ 308) :
    (powerOfTen k).isFinite = true ∧ (powerOfTen k).magnitude ≤ 10 ^ k * (1 + 2 ^ (-53 : Int)) := by
  have hquotient : ((1 * Decimal.tenTo k : Nat) : ℚ) / (Decimal.tenTo 0 : Nat) = 10 ^ k := by
    rw [Nat.one_mul, Decimal.cast_tenTo, Decimal.cast_tenTo, pow_zero, div_one]
  have hone : (1 : ℚ) ≤ 10 ^ k := one_le_pow₀ (by norm_num)
  have hrange : (10 : ℚ) ^ k < Binary64.overflow :=
    (pow_le_pow_right₀ (by norm_num) h).trans_lt ten_pow_lt_overflow
  rw [← hquotient] at hone hrange
  have hle := Binary64.magnitude_ofQuotient_le (Decimal.tenTo_pos 0) false hrange hone
  rw [powerOfTen_eq h]
  rw [hquotient] at hle
  exact ⟨Binary64.isFinite_ofQuotient (Decimal.tenTo_pos 0) false hrange, hle⟩

theorem ofNat_le {n : Nat} (hn : n ≠ 0) (h : (n : ℚ) < Binary64.overflow) :
    (ofNat n).isFinite = true ∧ (ofNat n).magnitude ≤ n * (1 + 2 ^ (-53 : Int)) := by
  have hquotient : (n : ℚ) / (1 : Nat) = n := by rw [Nat.cast_one, div_one]
  have hone : (1 : ℚ) ≤ n := by exact_mod_cast Nat.one_le_iff_ne_zero.2 hn
  rw [← hquotient] at hone h
  have hle := Binary64.magnitude_ofQuotient_le Nat.one_pos false h hone
  rw [hquotient] at hle
  exact ⟨Binary64.isFinite_ofQuotient Nat.one_pos false h, hle⟩

/-- The double of digits in their scale is there, if it stays below the end of the range however it is rounded. -/
theorem isSome_scaled? (negative : Bool) {n : Nat} {scale : Int} (h : n * 10 ^ scale * slack < Binary64.overflow) :
    (scaled? negative n scale).isSome = true := by
  unfold scaled?
  simp only
  by_cases hzero : (ofNat n).isZero = true
  · rw [if_pos hzero]
    rfl
  have hn : n ≠ 0 := by
    rintro rfl
    exact hzero rfl
  have hnone : (1 : ℚ) ≤ n := by exact_mod_cast Nat.one_le_iff_ne_zero.2 hn
  have hvalue : (n : ℚ) * 10 ^ scale < Binary64.overflow :=
    lt_of_le_of_lt (le_mul_of_one_le_right (by positivity) one_le_slack) h
  have hscale : scale ≤ 308 := by
    have hten : (10 : ℚ) ^ scale < 10 ^ (309 : Int) :=
      calc (10 : ℚ) ^ scale ≤ n * 10 ^ scale := le_mul_of_one_le_left (by positivity) hnone
        _ < 2 ^ (1024 : Int) := hvalue.trans Binary64.overflow_lt
        _ ≤ 10 ^ (309 : Int) := Decimal.two_zpow_le_ten_zpow (by decide) (by decide)
    exact Int.lt_add_one_iff.1 ((zpow_lt_zpow_iff_right₀ (by norm_num)).1 hten)
  rw [if_neg hzero, if_neg (by omega)]
  rcases Int.lt_or_le scale 0 with hneg | hpos
  · rw [if_neg (by omega)]
    split
    · rfl
    · split <;> rfl
  · -- the operands are rounded, and then the product of them
    obtain ⟨k, rfl⟩ := Int.eq_ofNat_of_zero_le hpos
    rw [zpow_natCast] at h hvalue
    have hwhole : (n : ℚ) < Binary64.overflow :=
      lt_of_le_of_lt (le_mul_of_one_le_right (Nat.cast_nonneg n) (one_le_pow₀ (by norm_num))) hvalue
    obtain ⟨hnfinite, hnle⟩ := ofNat_le hn hwhole
    obtain ⟨hkfinite, hkle⟩ := powerOfTen_le (k := k) (by omega)
    obtain ⟨num, den, hden, hquotient, hmade⟩ := Binary64.mul_of_finite hnfinite hkfinite
    have hproduct : (num : ℚ) / den < Binary64.overflow := by
      refine lt_of_le_of_lt ?_ h
      calc (num : ℚ) / den = (ofNat n).magnitude * (powerOfTen k).magnitude := hquotient
        _ ≤ n * (1 + 2 ^ (-53 : Int)) * (10 ^ k * (1 + 2 ^ (-53 : Int))) :=
            mul_le_mul hnle hkle (Binary64.magnitude_nonneg _) (by positivity)
        _ = n * 10 ^ k * slack := by
            rw [slack]
            ring
    rw [if_pos hpos, Int.toNat_natCast, hmade,
      Binary64.isInfinite_of_isFinite (Binary64.isFinite_ofQuotient hden _ hproduct)]
    rfl

/-- Nothing that rounds to a double below the greatest two comes to the end of the range when it is rounded twice
more. -/
theorem value_lt_overflow (hx : x.isFinite = true)
    (hlast : ¬ (x.exponentField = 0x7FE ∧ 0xFFFFFFFFFFFFE ≤ x.fractionField)) {q : ℚ} (h : Near q x) :
    q * slack < Binary64.overflow := by
  have hhidden : Binary64.hiddenBit = 2 ^ 52 := rfl
  have hunit := Binary64.two_zpow_pos 970
  have hle : ((x.significand : ℚ) + 1 / 2) * 2 ^ x.exponent ≤ (2 ^ 54 - 5) * 2 ^ (970 : Int) := by
    have hfield := Binary64.exponentField_lt hx
    rcases Int.lt_or_le 970 x.exponent with hgt | hle
    · -- the last binade: its unit is the double of the one before, and two of its doubles are left out
      rcases Binary64.significand_cases hx with ⟨-, he, -⟩ | ⟨hnormal, -, hto, he, -, -⟩
      · omega
      have hexponent : x.exponent = 1 + 970 := by omega
      have hsig : x.significand ≤ 9007199254740989 := by
        rw [Binary64.significand, if_neg (by omega)]
        omega
      have hcast : (x.significand : ℚ) ≤ 9007199254740989 := by exact_mod_cast hsig
      rw [hexponent, zpow_one_add₀ two_ne_zero, ← mul_assoc]
      refine mul_le_mul_of_nonneg_right ?_ hunit.le
      linarith
    · have hsig : x.significand ≤ 9007199254740992 := by
        rcases Binary64.significand_cases hx with ⟨-, -, hlt⟩ | ⟨-, -, -, -, -, hlt⟩ <;> omega
      have hcast : (x.significand : ℚ) ≤ 9007199254740992 := by exact_mod_cast hsig
      refine mul_le_mul ?_ (zpow_le_zpow_right₀ one_le_two hle) (Binary64.two_zpow_pos _).le (by norm_num)
      linarith
  have hslack : (2 ^ 54 - 5) * slack < 2 ^ 54 - 1 := by norm_num [slack]
  have hnonneg : 0 ≤ slack := by norm_num [slack]
  calc q * slack ≤ (2 ^ 54 - 5) * 2 ^ (970 : Int) * slack := mul_le_mul_of_nonneg_right (h.2.1.trans hle) hnonneg
    _ = (2 ^ 54 - 5) * slack * 2 ^ (970 : Int) := by ring
    _ < Binary64.overflow := mul_lt_mul_of_pos_right hslack hunit

/-! ## The greatest doubles -/

/-- The greatest finite double, of either sign. -/
def IsGreatest (x : Binary64) : Prop := x.exponentField = 0x7FE ∧ x.fractionField = 0xFFFFFFFFFFFFF

/-- The shortest digits of the greatest double and of the one before it. -/
theorem shortest_last (hexponent : x.exponentField = 0x7FE) (hfraction : 0xFFFFFFFFFFFFE ≤ x.fractionField) :
    Decimal.shortest x =
      ⟨if x.fractionField = 0xFFFFFFFFFFFFF then 17976931348623157 else 17976931348623155, 292⟩ := by
  have hlt := Binary64.fractionField_lt x
  have hhidden : Binary64.hiddenBit = 2 ^ 52 := rfl
  have hmade := Binary64.eq_ofFields x
  rw [hexponent] at hmade
  by_cases hgreatest : x.fractionField = 0xFFFFFFFFFFFFF
  · rw [if_pos hgreatest]
    rw [hgreatest] at hmade
    rw [hmade]
    cases x.signBit <;> decide +kernel
  · obtain hbefore : x.fractionField = 0xFFFFFFFFFFFFE := by omega
    rw [if_neg hgreatest]
    rw [hbefore] at hmade
    rw [hmade]
    cases x.signBit <;> decide +kernel

/-- In their scale the digits of both are read. -/
theorem isSome_scaled?_last (negative : Bool) :
    (scaled? negative 17976931348623157 292).isSome = true ∧
      (scaled? negative 17976931348623155 292).isSome = true := by
  cases negative <;> decide +kernel

/-- With zeros behind them, which go into the significand while there is room, those of the greatest are not. -/
theorem isSome_integer?_last (negative : Bool) :
    (integer? negative (gathered ⟨17976931348623157, 292⟩)).isSome = false ∧
      (integer? negative (gathered ⟨17976931348623155, 292⟩)).isSome = true := by
  cases negative <;> decide +kernel

/-! ## What is read -/

variable {d : Decimal}

theorem isSome_integer? (negative : Bool) (hroom : d.digits < UInt64.size) (hscale : 0 ≤ d.scale)
    (h : d.value * slack < Binary64.overflow) : (integer? negative (gathered d)).isSome = true := by
  obtain ⟨hpos, hvalue⟩ := gathered_spec hroom
  generalize gathered d = g at hpos hvalue
  unfold integer?
  split
  · have hsame : (g.significand : ℚ) * 10 ^ g.scale = d.value := by
      have hcast : ((g.significand * 10 ^ g.scale.toNat : Nat) : ℚ) = (d.digits * 10 ^ d.scale.toNat : Nat) := by
        rw [hvalue]
      push_cast at hcast
      rwa [← zpow_natCast, ← zpow_natCast, Int.toNat_of_nonneg hpos, Int.toNat_of_nonneg hscale] at hcast
    rw [← hsame] at h
    rw [Option.map_eq_map, Option.isSome_map]
    exact isSome_scaled? negative h
  · split
    · rfl
    · split
      · rfl
      · split <;> rfl

/-- A magnitude below a power of ten has room for one zero more. -/
theorem lt_size_of_topExponent (h : d.topExponent < 16) (hscale : 0 ≤ d.scale) :
    d.digits * 10 ^ d.scale.toNat * 10 < UInt64.size := by
  have hlength : (toString d.digits).length = (Nat.toDigits 10 d.digits).length := by
    rw [← String.length_toList, toList_toString]
  have hdigits : d.digits < 10 ^ (Nat.toDigits 10 d.digits).length :=
    (Nat.length_toDigits_le_iff (by decide) (Nat.length_toDigits_pos)).1 (le_refl _)
  rw [Decimal.topExponent, hlength] at h
  calc d.digits * 10 ^ d.scale.toNat * 10 < 10 ^ (Nat.toDigits 10 d.digits).length * 10 ^ d.scale.toNat * 10 := by
        gcongr
    _ = 10 ^ ((Nat.toDigits 10 d.digits).length + d.scale.toNat + 1) := by ring
    _ ≤ 10 ^ 17 := Nat.pow_le_pow_right (by decide) (by omega)
    _ < UInt64.size := by decide

/-- The shortest digits of a double are not far behind the point, nor far before it. -/
theorem natAbs_scale_le (hx : x.isFinite = true) (hne : x.significand ≠ 0) :
    (Decimal.shortest x).scale.natAbs ≤ 500 := by
  obtain ⟨⟨hlow, hhigh, -⟩, hdigits, hroom⟩ := Decimal.shortest_spec hx hne
  obtain ⟨hleast, hgreatest⟩ := Decimal.magnitude_bounds hx hne
  generalize Decimal.shortest x = d at *
  have hone : (1 : ℚ) ≤ x.significand := by exact_mod_cast Nat.one_le_iff_ne_zero.2 hne
  have hreach : x.reach ≤ 1 / 2 := by
    unfold Binary64.reach
    split <;> norm_num
  have hunit := Binary64.two_zpow_pos x.exponent
  rw [Binary64.magnitude] at hleast hgreatest
  rw [Decimal.value] at hlow hhigh
  have hpos := Decimal.ten_zpow_pos d.scale
  have hdone : (1 : ℚ) ≤ d.digits := by exact_mod_cast Nat.one_le_iff_ne_zero.2 hdigits
  have hdroom : (d.digits : ℚ) ≤ 10 ^ (17 : Int) := by exact_mod_cast hroom
  have hto : d.scale < 309 := by
    refine (zpow_lt_zpow_iff_right₀ (by norm_num : (1 : ℚ) < 10)).1 ?_
    calc (10 : ℚ) ^ d.scale ≤ d.digits * 10 ^ d.scale := le_mul_of_one_le_left hpos.le hdone
      _ ≤ (x.significand + 1 / 2) * 2 ^ x.exponent := hhigh
      _ ≤ 2 * (x.significand * 2 ^ x.exponent) := by nlinarith
      _ < 2 * 2 ^ (1024 : Int) := by gcongr
      _ = 2 ^ (1025 : Int) := (zpow_one_add₀ two_ne_zero 1024).symm
      _ ≤ 10 ^ (309 : Int) := Decimal.two_zpow_le_ten_zpow (by decide) (by decide)
  have hfrom : -324 ≤ d.scale + 17 := by
    refine (zpow_le_zpow_iff_right₀ (by norm_num : (1 : ℚ) < 10)).1 ?_
    have hpowers := Decimal.two_zpow_le_ten_zpow (k := 1075) (a := 324) (by decide) (by decide)
    calc (10 : ℚ) ^ (-324 : Int) ≤ 2 ^ (-1075 : Int) := by
          rw [zpow_neg, zpow_neg]
          exact inv_anti₀ (Binary64.two_zpow_pos _) hpowers
      _ = 2 ^ (-1074 : Int) / 2 := zpow_sub_one₀ two_ne_zero (-1074)
      _ ≤ x.significand * 2 ^ x.exponent / 2 := by gcongr
      _ ≤ (x.significand - x.reach) * 2 ^ x.exponent := by nlinarith
      _ ≤ d.digits * 10 ^ d.scale := hlow
      _ ≤ 10 ^ (17 : Int) * 10 ^ d.scale := by gcongr
      _ = 10 ^ (d.scale + 17) := by rw [← zpow_add₀ (by norm_num), add_comm]
  omega

theorem isSome_float {o : Option Binary64} : (Number.float <$> o).isSome = o.isSome := by
  rw [Option.map_eq_map, Option.isSome_map]

section

variable (hx : x.isFinite = true) {l : Decimal.Layout} (hl : l = Decimal.plain ∨ l = numberLayout)

include hx hl

/-- Of the greatest two doubles all but the greatest are read from a text without an exponent. -/
theorem isSome_read?_write_last (hlast : x.exponentField = 0x7FE ∧ 0xFFFFFFFFFFFFE ≤ x.fractionField) :
    (Number.read? (l.write x).toList).isSome = true ↔ ¬ (l = Decimal.plain ∧ IsGreatest x) := by
  have hne : x.significand ≠ 0 := by
    rw [Binary64.significand, if_neg (by omega)]
    omega
  obtain ⟨-, hdigits, hroom⟩ := Decimal.shortest_spec hx hne
  have hscale := natAbs_scale_le hx hne
  have hlt := lt_size_of_le hroom
  have hwritten := toList_write l hx hne
  have htop : ∀ c : Prop, ∀ [Decidable c],
      Decimal.topExponent ⟨if c then 17976931348623157 else 17976931348623155, 292⟩ = 308 := by
    intro c _
    split <;> decide +kernel
  rw [shortest_last hlast.1 hlast.2] at hwritten hdigits hlt hscale
  rw [htop] at hwritten
  rcases hl with rfl | rfl
  · -- without an exponent all the zeros are written out
    rcases hwritten with ⟨houtside, -⟩ | ⟨-, hwritten⟩
    · cases houtside
    have hread := read?_whole x.signBit hdigits (Int.natCast_nonneg 292)
    rw [hwritten]
    refine (congrArg (fun o => Option.isSome o = true) hread).to_iff.trans ?_
    by_cases hgreatest : x.fractionField = 0xFFFFFFFFFFFFF
    · rw [if_pos hgreatest, (isSome_integer?_last _).1]
      exact iff_of_false Bool.false_ne_true fun h => h ⟨rfl, hlast.1, hgreatest⟩
    · rw [if_neg hgreatest, (isSome_integer?_last _).2]
      exact iff_of_true rfl fun h => hgreatest h.2.2
  · have hplain : numberLayout ≠ Decimal.plain := by
      intro h
      cases congrArg Decimal.Layout.pointZero h
    rcases hwritten with ⟨-, hwritten⟩ | ⟨hinside, -⟩
    · rw [hwritten, read?_scientific _ hlt hscale, isSome_float]
      refine iff_of_true ?_ fun h => hplain h.1
      split
      · exact (isSome_scaled?_last _).1
      · exact (isSome_scaled?_last _).2
    · cases hinside

/-- The doubles below the greatest two are read from their texts. -/
theorem isSome_read?_write_of_below (hne : x.significand ≠ 0)
    (hlast : ¬ (x.exponentField = 0x7FE ∧ 0xFFFFFFFFFFFFE ≤ x.fractionField)) :
    (Number.read? (l.write x).toList).isSome = true := by
  obtain ⟨hnear, hdigits, hroom⟩ := Decimal.shortest_spec hx hne
  have hscale := natAbs_scale_le hx hne
  have hlt := lt_size_of_le hroom
  have hwritten := toList_write l hx hne
  have hvalue := value_lt_overflow hx hlast hnear
  generalize Decimal.shortest x = d at *
  rcases hwritten with ⟨-, hwritten⟩ | ⟨htop, hwritten⟩
  · rw [hwritten, read?_scientific _ hlt hscale, isSome_float]
    exact isSome_scaled? _ hvalue
  · by_cases hwhole : 0 ≤ d.scale
    · rcases hl with rfl | rfl
      · have hread := read?_whole x.signBit hdigits hwhole
        rw [hwritten]
        refine (congrArg Option.isSome hread).trans ?_
        exact isSome_integer? _ hlt hwhole hvalue
      · have htop' : d.topExponent < 16 := by
          simpa [numberLayout] using htop
        have hread := read?_whole_point x.signBit hdigits hwhole (lt_size_of_topExponent htop' hwhole)
        have hsame : ((d.digits * 10 ^ d.scale.toNat * 10 : Nat) : ℚ) * 10 ^ (-1 : Int) = d.value := by
          rw [Decimal.value, ← Int.toNat_of_nonneg hwhole, zpow_natCast, Int.toNat_natCast]
          push_cast
          rw [zpow_neg_one, mul_inv_cancel_right₀ (by norm_num)]
        rw [hwritten]
        refine (congrArg Option.isSome hread).trans ?_
        rw [isSome_float]
        exact isSome_scaled? _ (by rwa [hsame])
    · rw [hwritten, read?_fraction _ hlt hwhole, isSome_float]
      exact isSome_scaled? _ hvalue

/-- A finite double is read from its text, except the greatest from a text without an exponent. -/
theorem isSome_read?_write :
    (Number.read? (l.write x).toList).isSome = true ↔ ¬ (l = Decimal.plain ∧ IsGreatest x) := by
  by_cases hlast : x.exponentField = 0x7FE ∧ 0xFFFFFFFFFFFFE ≤ x.fractionField
  · exact isSome_read?_write_last hx hl hlast
  · have hgreatest : ¬ (l = Decimal.plain ∧ IsGreatest x) := by
      rintro ⟨-, hexponent, hfraction⟩
      exact hlast ⟨hexponent, by omega⟩
    refine iff_of_true ?_ hgreatest
    by_cases hzero : x.significand = 0
    · obtain ⟨n, hread, -⟩ := readsAs_of_zero hx hzero hl
      rw [hread]
      rfl
    · exact isSome_read?_write_of_below hx hl hzero hlast

end

end Scripting.Json
