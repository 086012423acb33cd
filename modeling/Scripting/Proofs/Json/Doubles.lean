/-
Doubles read from their texts. However a double is laid out, its text is read as its shortest digits in their scale, or
with the zeros of a whole number among the digits; where those and the power of ten are doubles themselves, the one
product or quotient of them is the double that was written.
-/
import Scripting.Proofs.Json.Numbers
import Scripting.Proofs.Number.Shortest
import Scripting.Proofs.Number.Arithmetic

namespace Scripting

namespace Json

open Decimal (exponentText)

/-! ## What the digits are gathered into -/

/-- The value of an exponent's digits, where it is no greater than any that counts. -/
theorem exponentValue?_toDigits {n : Nat} (h : n ≤ greatestExponent) :
    exponentValue? (figures (Nat.toDigits 10 n)) = some n := by
  have hgo : ∀ (w : List Char) (m : Nat), Nat.ofDigitChars 10 w m ≤ greatestExponent →
      (figures w).foldlM (fun n d => if n * 10 + d ≤ greatestExponent then some (n * 10 + d) else none) m =
        some (Nat.ofDigitChars 10 w m) := by
    intro w
    induction w with
    | nil =>
      intro m _
      rfl
    | cons c rest ih =>
      intro m hm
      rw [Nat.ofDigitChars_cons, Nat.mul_comm] at hm ⊢
      have hle := Nat.le_trans (le_ofDigitChars rest _) hm
      show (if m * 10 + (c.toNat - '0'.toNat) ≤ greatestExponent then _ else _) >>= _ = _
      rw [if_pos hle]
      exact ih _ hm
  have hdigits := hgo (Nat.toDigits 10 n) 0 (by rw [Nat.ofDigitChars_ten_toDigits]; exact h)
  rw [Nat.ofDigitChars_ten_toDigits] at hdigits
  exact hdigits

theorem figures_ne_nil (n : Nat) : figures (Nat.toDigits 10 n) ≠ [] := by
  intro h
  exact Nat.toDigits_ne_nil (List.map_eq_nil_iff.1 h)

/-- An exponent is added to the scale. -/
theorem withExponent?_eq (negative down : Bool) (g : Gathered) {n : Nat} (hn : n ≤ 1000)
    (hscale : g.scale.natAbs ≤ 1000) :
    withExponent? negative g down (figures (Nat.toDigits 10 n)) =
      Number.float <$> scaled? negative g.significand (g.scale + if down then -(n : Int) else n) := by
  have hgreatest : greatestExponent = 0x7FFFFFFF := rfl
  rw [withExponent?, exponentValue?_toDigits (by omega)]
  cases down with
  | true =>
    have hmax : max (g.scale - n) (-(greatestExponent + 1)) = g.scale + -(n : Int) := by omega
    simp only [if_true, hmax]
  | false =>
    have hmin : min (g.scale + n) (greatestExponent : Int) = g.scale + n := by omega
    simp only [Bool.false_eq_true, if_false, hmin]

theorem exponent?_eq (negative down : Bool) (g : Gathered) {n : Nat} (hn : n ≤ 1000) (hscale : g.scale.natAbs ≤ 1000) :
    Number.exponent? negative g 'e' ((if down then '-' else '+') :: Nat.toDigits 10 n) =
      Number.float <$> scaled? negative g.significand (g.scale + if down then -(n : Int) else n) := by
  have hspan := spanDigits_append (isDigit_of_mem_toDigits (n := n)) [] (by simp)
  have hadded := withExponent?_eq negative down g hn hscale
  rw [List.append_nil] at hspan
  rw [← hadded]
  cases hfigures : figures (Nat.toDigits 10 n) with
  | nil => exact absurd hfigures (figures_ne_nil n)
  | cons d ds =>
    rw [hfigures] at hspan
    unfold Number.exponent?
    rw [if_pos (.inl rfl)]
    cases down with
    | false =>
      simp only [Bool.false_eq_true, if_false]
      rw [hspan]
    | true =>
      simp only [if_true]
      rw [hspan]

section

variable (negative : Bool) {n : Nat} (scale : Int) {f : List Char} (hf : ∀ c ∈ f, c.isDigit = true) (hne : f ≠ [])
  (hroom : Nat.ofDigitChars 10 f n < UInt64.size)

include hf hne hroom

/-- Digits behind the point are gathered too, and each is one place less in the scale. -/
theorem behind?_fraction : Number.behind? negative ⟨n, scale, false⟩ ('.' :: f) =
    Number.float <$> scaled? negative (Nat.ofDigitChars 10 f n) (scale - f.length) := by
  have hspan := spanDigits_append hf [] (by simp)
  rw [List.append_nil] at hspan
  rw [Number.behind?, hspan]
  simp only
  rw [foldl_fractional scale hroom]
  cases hfigures : figures f with
  | nil => exact absurd (List.map_eq_nil_iff.1 hfigures) hne
  | cons d ds => rfl

theorem behind?_fraction_exponent (rest : List Char) :
    Number.behind? negative ⟨n, scale, false⟩ ('.' :: (f ++ 'e' :: rest)) =
      Number.exponent? negative ⟨Nat.ofDigitChars 10 f n, scale - f.length, false⟩ 'e' rest := by
  have hspan := spanDigits_append hf ('e' :: rest) (by simp)
  rw [Number.behind?, hspan]
  simp only
  rw [foldl_fractional scale hroom]
  cases hfigures : figures f with
  | nil => exact absurd (List.map_eq_nil_iff.1 hfigures) hne
  | cons d ds => rfl

end

theorem isWhole_singleton {c : Char} (h : c.isDigit = true) : IsWhole [c] := by
  refine ⟨by simpa using h, List.cons_ne_nil _ _, ?_⟩
  intro rest hrest
  exact ((List.cons.inj hrest).2).symm

variable {d : Decimal}

theorem length_toDigits_le {n : Nat} (h : n < UInt64.size) : (Nat.toDigits 10 n).length ≤ 20 := by
  rw [Nat.length_toDigits_le_iff (by decide) (by decide)]
  exact Nat.lt_trans h (by decide)

/-- A magnitude with an exponent is read as its digits in their scale. -/
theorem read?_scientific (negative : Bool) (hroom : d.digits < UInt64.size) (hscale : d.scale.natAbs ≤ 500) :
    Number.read? ((if negative then "-" else "").toList ++ d.scientific.toList) =
      Number.float <$> scaled? negative d.digits d.scale := by
  cases hdigits : Nat.toDigits 10 d.digits with
  | nil => exact absurd hdigits Nat.toDigits_ne_nil
  | cons c rest =>
    have hall := isDigit_of_mem_toDigits (n := d.digits)
    have hlength := length_toDigits_le hroom
    have hvalue : Nat.ofDigitChars 10 (c :: rest) 0 = d.digits := by
      rw [← hdigits, Nat.ofDigitChars_ten_toDigits]
    rw [hdigits, List.forall_mem_cons] at hall
    rw [hdigits, List.length_cons] at hlength
    rw [Nat.ofDigitChars_cons] at hvalue
    have hfirst : Nat.ofDigitChars 10 [c] 0 = 10 * 0 + (c.toNat - '0'.toNat) := rfl
    have hle := le_ofDigitChars rest (10 * 0 + (c.toNat - '0'.toNat))
    rw [Decimal.toList_scientific d hdigits, Decimal.exponentText]
    generalize he : d.scale + ((rest.length + 1 : Nat) : Int) - 1 = e
    have hread := read?_signed negative (isWhole_singleton hall.1)
      ((if rest = [] then [] else '.' :: rest) ++ 'e' :: (if e < 0 then '-' else '+') :: Nat.toDigits 10 e.natAbs)
      (by split <;> simp)
    rw [foldl_whole 0 (by rw [hfirst]; omega), hfirst] at hread
    refine hread.trans ?_
    have hexponent : ∀ g : Gathered, g.scale.natAbs ≤ 1000 → Number.exponent? negative g 'e'
        ((if e < 0 then '-' else '+') :: Nat.toDigits 10 e.natAbs) =
          Number.float <$> scaled? negative g.significand (g.scale + e) := by
      intro g hg
      have hadded := exponent?_eq negative (decide (e < 0)) g (n := e.natAbs) (by omega) hg
      simp only [decide_eq_true_eq] at hadded
      have habs : (if e < 0 then -(e.natAbs : Int) else e.natAbs) = e := by split <;> omega
      rwa [habs] at hadded
    by_cases hrest : rest = []
    · subst hrest
      refine (hexponent ⟨10 * 0 + (c.toNat - '0'.toNat), 0, false⟩ (Nat.zero_le _)).trans ?_
      simp only
      congr 2
      simp at he
      omega
    · rw [if_neg hrest, List.cons_append, behind?_fraction_exponent negative 0 hall.2 hrest (by omega),
        hexponent _ (by simp; omega), hvalue]
      congr 2
      simp
      omega

/-- Digits with zeros behind them. -/
theorem ofDigitChars_zeros (n k : Nat) :
    Nat.ofDigitChars 10 (Nat.toDigits 10 n ++ List.replicate k '0') 0 = n * 10 ^ k := by
  rw [Nat.ofDigitChars_append, Nat.ofDigitChars_ten_toDigits, Nat.ofDigitChars_replicate_zero, Nat.mul_comm]

theorem isWhole_zeros {n : Nat} (hn : n ≠ 0) (k : Nat) : IsWhole (Nat.toDigits 10 n ++ List.replicate k '0') := by
  obtain ⟨hdigits, hne, hlead⟩ := isWhole_toDigits n
  refine ⟨?_, by simp [hne], ?_⟩
  · intro c hc
    rcases List.mem_append.1 hc with hc | hc
    · exact hdigits c hc
    · exact isDigit_of_mem_zeros c hc
  · -- only the digits of zero begin with a zero
    intro rest hrest
    cases hfirst : Nat.toDigits 10 n with
    | nil => exact absurd hfirst hne
    | cons c w =>
      rw [hfirst] at hrest
      rw [(List.cons.inj hrest).1] at hfirst
      rw [hlead w hfirst] at hfirst
      have hzero : Nat.ofDigitChars 10 ['0'] 0 = n := by rw [← hfirst, Nat.ofDigitChars_ten_toDigits]
      exact absurd hzero.symm hn

/-- A whole magnitude with a point is read as its digits and one zero more, a place behind the point. -/
theorem read?_whole_point (negative : Bool) (hne : d.digits ≠ 0) (hscale : 0 ≤ d.scale)
    (hroom : d.digits * 10 ^ d.scale.toNat * 10 < UInt64.size) :
    Number.read? ((if negative then "-" else "").toList ++ (d.positional true).toList) =
      Number.float <$> scaled? negative (d.digits * 10 ^ d.scale.toNat * 10) (-1) := by
  have hread := read?_signed negative (isWhole_zeros hne d.scale.toNat) ['.', '0'] (by simp)
  have hsize := ofDigitChars_zeros d.digits d.scale.toNat
  rw [foldl_whole 0 (by rw [hsize]; omega), hsize] at hread
  rw [Decimal.toList_positional_whole d hscale, if_pos rfl, ← List.append_assoc (Nat.toDigits 10 d.digits)]
  refine hread.trans ?_
  have hone : Nat.ofDigitChars 10 ['0'] (d.digits * 10 ^ d.scale.toNat) = d.digits * 10 ^ d.scale.toNat * 10 := by
    rw [Nat.mul_comm _ 10]
    rfl
  have hzero : ∀ c ∈ ['0'], c.isDigit = true := List.all_eq_true.1 (by decide)
  rw [behind?_fraction negative 0 hzero (List.cons_ne_nil _ _) (by rw [hone]; exact hroom), hone]
  rfl

/-- What stands before the point is one zero, or the first of the digits. -/
theorem isWhole_take_padded : IsWhole (d.padded.take (d.padded.length - (-d.scale).toNat)) := by
  obtain ⟨hdigits, hne, hlead⟩ := isWhole_toDigits d.digits
  have hlength := Decimal.lt_length_padded d
  have hpadded : d.padded.length =
      (-d.scale).toNat + 1 - (Nat.toDigits 10 d.digits).length + (Nat.toDigits 10 d.digits).length := by
    rw [Decimal.padded, List.length_append, List.length_replicate]
  rcases Nat.lt_or_ge (-d.scale).toNat (Nat.toDigits 10 d.digits).length with hlt | hge
  · have hzeros : (-d.scale).toNat + 1 - (Nat.toDigits 10 d.digits).length = 0 := by omega
    have hall : d.padded = Nat.toDigits 10 d.digits := by
      rw [Decimal.padded, hzeros, List.replicate_zero, List.nil_append]
    rw [hall] at hlength ⊢
    refine ⟨fun c hc => hdigits c (List.mem_of_mem_take hc), ?_, ?_⟩
    · rw [ne_eq, List.take_eq_nil_iff]
      rintro (h | h)
      · omega
      · exact hne h
    · intro rest hrest
      cases hfirst : Nat.toDigits 10 d.digits with
      | nil => exact absurd hfirst hne
      | cons c w =>
        obtain ⟨k, hk⟩ := Nat.exists_eq_succ_of_ne_zero
          (Nat.sub_ne_zero_of_lt hlength : (Nat.toDigits 10 d.digits).length - (-d.scale).toNat ≠ 0)
        rw [hk, hfirst, Nat.succ_eq_add_one, List.take_succ_cons, List.cons.injEq] at hrest
        rw [hrest.1] at hfirst
        rw [hlead w hfirst] at hrest
        simpa using hrest.2.symm
  · have hone : d.padded.length - (-d.scale).toNat = 1 := by omega
    obtain ⟨r, hr⟩ := Nat.exists_eq_succ_of_ne_zero
      (by omega : (-d.scale).toNat + 1 - (Nat.toDigits 10 d.digits).length ≠ 0)
    rw [hone, Decimal.padded, hr, List.replicate_succ, List.cons_append]
    exact isWhole_singleton (by decide)

/-- A magnitude with digits behind the point is read as its digits in their scale. -/
theorem read?_fraction (negative : Bool) (hroom : d.digits < UInt64.size) (hscale : ¬ 0 ≤ d.scale) (pointZero : Bool) :
    Number.read? ((if negative then "-" else "").toList ++ (d.positional pointZero).toList) =
      Number.float <$> scaled? negative d.digits d.scale := by
  have hlength := Decimal.lt_length_padded d
  have hdigits := Decimal.isDigit_of_mem_padded d
  have hvalue : Nat.ofDigitChars 10 d.padded 0 = d.digits := by
    rw [Decimal.padded, Nat.ofDigitChars_append, Nat.ofDigitChars_replicate_zero, Nat.mul_zero,
      Nat.ofDigitChars_ten_toDigits]
  rw [Decimal.toList_positional_fraction d hscale]
  generalize hk : d.padded.length - (-d.scale).toNat = k
  have hwhole : IsWhole (d.padded.take k) := by
    rw [← hk]
    exact isWhole_take_padded
  have hsplit : Nat.ofDigitChars 10 (d.padded.drop k) (Nat.ofDigitChars 10 (d.padded.take k) 0) = d.digits := by
    rw [← Nat.ofDigitChars_append, List.take_append_drop, hvalue]
  have hread := read?_signed negative hwhole ('.' :: d.padded.drop k) (by simp)
  have hle := le_ofDigitChars (d.padded.drop k) (Nat.ofDigitChars 10 (d.padded.take k) 0)
  rw [foldl_whole 0 (by omega)] at hread
  refine hread.trans ?_
  rw [behind?_fraction negative 0 (fun c hc => hdigits c (List.mem_of_mem_drop hc)) ?_ (by omega), hsplit,
    List.length_drop]
  · congr 2
    omega
  · rw [ne_eq, List.drop_eq_nil_iff]
    omega

/-- Zeros are gathered as long as there is room for them, and then counted. -/
theorem foldl_whole_zeros (k : Nat) (g : Gathered) :
    ∃ j : Nat, ((figures (List.replicate k '0')).foldl Gathered.whole g).scale = g.scale + j ∧
      ((figures (List.replicate k '0')).foldl Gathered.whole g).significand * 10 ^ j = g.significand * 10 ^ k := by
  induction k generalizing g with
  | zero => exact ⟨0, (add_zero _).symm, rfl⟩
  | succ k ih =>
    have hfold : (figures (List.replicate (k + 1) '0')).foldl Gathered.whole g =
        (figures (List.replicate k '0')).foldl Gathered.whole (g.whole 0) := rfl
    rw [hfold]
    by_cases hfits : g.fits 0 = true
    · have hwhole : g.whole 0 = { g with significand := g.significand * 10 } := if_pos hfits
      obtain ⟨j, hscale, hvalue⟩ := ih { g with significand := g.significand * 10 }
      rw [hwhole]
      refine ⟨j, hscale, hvalue.trans ?_⟩
      rw [Nat.pow_succ, Nat.mul_assoc, Nat.mul_comm 10]
    · have hwhole : g.whole 0 = { g with scale := g.scale + 1, full := true } := if_neg hfits
      obtain ⟨j, hscale, hvalue⟩ := ih { g with scale := g.scale + 1, full := true }
      rw [hwhole]
      refine ⟨j + 1, ?_, ?_⟩
      · rw [hscale]
        push_cast
        ring
      · rw [Nat.pow_succ, ← Nat.mul_assoc, hvalue, Nat.mul_assoc, ← Nat.pow_succ]

/-- What the digits of a whole magnitude are gathered into. -/
def gathered (d : Decimal) : Gathered :=
  (figures (Nat.toDigits 10 d.digits ++ List.replicate d.scale.toNat '0')).foldl Gathered.whole ⟨0, 0, false⟩

/-- A whole magnitude without a point is an integer, or the double of the digits that there is room for. -/
theorem read?_whole (negative : Bool) (hne : d.digits ≠ 0) (hscale : 0 ≤ d.scale) :
    Number.read? ((if negative then "-" else "").toList ++ (d.positional false).toList) =
      integer? negative (gathered d) := by
  have hread := read?_signed negative (isWhole_zeros hne d.scale.toNat) [] (by simp)
  rw [Decimal.toList_positional_whole d hscale, if_neg Bool.false_ne_true]
  rw [List.append_nil] at hread ⊢
  exact hread

theorem gathered_spec (hroom : d.digits < UInt64.size) : 0 ≤ (gathered d).scale ∧
    (gathered d).significand * 10 ^ (gathered d).scale.toNat = d.digits * 10 ^ d.scale.toNat := by
  have hfigures : figures (Nat.toDigits 10 d.digits ++ List.replicate d.scale.toNat '0') =
      figures (Nat.toDigits 10 d.digits) ++ figures (List.replicate d.scale.toNat '0') := List.map_append
  rw [gathered, hfigures, List.foldl_append, foldl_toDigits hroom]
  obtain ⟨j, hj, hvalue⟩ := foldl_whole_zeros d.scale.toNat ⟨d.digits, 0, false⟩
  rw [hj, zero_add, Int.toNat_natCast]
  exact ⟨Int.natCast_nonneg j, hvalue⟩

/-- A whole magnitude without a point is read as an integer, where there is room for it. -/
theorem read?_whole_of_room (negative : Bool) (hne : d.digits ≠ 0) (hscale : 0 ≤ d.scale)
    (hroom : d.digits * 10 ^ d.scale.toNat < UInt64.size) :
    Number.read? ((if negative then "-" else "").toList ++ (d.positional false).toList) =
      integer? negative ⟨d.digits * 10 ^ d.scale.toNat, 0, false⟩ := by
  have hsize := ofDigitChars_zeros d.digits d.scale.toNat
  rw [read?_whole negative hne hscale, gathered, foldl_whole 0 (by rw [hsize]; exact hroom), hsize]

/-! ## Digits in their scale -/

open Binary64 (Near ofNat)

/-- Up to `10^22` the double of a power of ten is worth it. -/
theorem powerOfTen_spec {n : Nat} (h : n ≤ 22) : (powerOfTen n).isFinite = true ∧ (powerOfTen n).signBit = false ∧
    (powerOfTen n).significand ≠ 0 ∧ (powerOfTen n).magnitude = 10 ^ n := by
  have hall : ∀ n < 23, (powerOfTen n).isFinite = true ∧ (powerOfTen n).signBit = false ∧
      (powerOfTen n).significand ≠ 0 ∧
      (powerOfTen n).significand <<< (powerOfTen n).exponent.toNat = 10 ^ n * 1 <<< (-(powerOfTen n).exponent).toNat := by
    decide +kernel
  obtain ⟨hfinite, hsign, hne, hvalue⟩ := hall n (by omega)
  refine ⟨hfinite, hsign, hne, ?_⟩
  have hpos : ((1 <<< (-(powerOfTen n).exponent).toNat : Nat) : ℚ) ≠ 0 := by
    rw [Nat.one_shiftLeft]
    exact_mod_cast (Nat.two_pow_pos _).ne'
  rw [Binary64.magnitude, ← Binary64.cast_unit, hvalue, Nat.cast_mul, mul_div_assoc, div_self hpos]
  push_cast
  ring

variable {x : Binary64}

/-- Digits up to `2^53` in a scale up to `22` either way are read as the double that they round to. -/
theorem scaled?_of_near (hx : x.isFinite = true) (hne : x.significand ≠ 0) {n : Nat} (hn : n ≠ 0) (hle : n ≤ 2 ^ 53)
    {scale : Int} (hscale : scale.natAbs ≤ 22) (h : Near (n * 10 ^ scale) x) (negative : Bool) :
    scaled? negative n scale = some (Binary64.ofFields negative x.exponentField x.fractionField) := by
  obtain ⟨hfinite, hsign, hmagnitude⟩ := Binary64.ofNat_spec hn hle
  have hzero : (ofNat n).isZero = false := by
    rw [← Bool.not_eq_true, Binary64.isZero_iff]
    intro hzero
    rw [Binary64.magnitude, hzero, Nat.cast_zero, zero_mul] at hmagnitude
    exact hn (by exact_mod_cast hmagnitude.symm)
  have hfield : x.exponentField < 2 ^ 11 := (Binary64.exponentField_lt hx).trans (by decide)
  have hfraction : x.fractionField < 2 ^ 52 := Binary64.fractionField_lt x
  -- what is made without a sign has the fields of the double, and so has what is made with one
  have hfinal : (Binary64.ofFields false x.exponentField x.fractionField).isInfinite = false := by
    refine Binary64.isInfinite_of_isFinite ?_
    rw [Binary64.isFinite, Binary64.exponentField_ofFields false hfield hfraction]
    exact hx
  have hsigned : (if negative then -(Binary64.ofFields false x.exponentField x.fractionField)
      else Binary64.ofFields false x.exponentField x.fractionField) =
        Binary64.ofFields negative x.exponentField x.fractionField := by
    cases negative with
    | false => rfl
    | true => exact Binary64.neg_ofFields hfield hfraction
  unfold scaled?
  simp only
  rw [hzero, if_neg Bool.false_ne_true, if_neg (by omega)]
  rcases Int.lt_or_le scale 0 with hneg | hpos
  · obtain ⟨hpfinite, hpsign, hpne, hpower⟩ := powerOfTen_spec (n := (-scale).toNat) (by omega)
    obtain ⟨num, den, hden, hquotient, hmade⟩ := Binary64.div_of_finite hfinite hpfinite hpne
    have hvalue : (n : ℚ) * 10 ^ scale = num / den := by
      rw [hquotient, hmagnitude, hpower, Binary64.zpow_eq_div (by norm_num) scale, Int.toNat_of_nonpos hneg.le, pow_zero,
        mul_one_div]
    rw [hvalue] at h
    rw [if_neg (by omega), if_pos (by omega), hmade, hsign, hpsign, Binary64.ofQuotient_of_near hx hne hden h]
    exact congrArg some hsigned
  · obtain ⟨hpfinite, hpsign, -, hpower⟩ := powerOfTen_spec (n := scale.toNat) (by omega)
    obtain ⟨num, den, hden, hquotient, hmade⟩ := Binary64.mul_of_finite hfinite hpfinite
    have hvalue : (n : ℚ) * 10 ^ scale = num / den := by
      rw [hquotient, hmagnitude, hpower, ← zpow_natCast, Int.toNat_of_nonneg hpos]
    rw [hvalue] at h
    rw [if_pos hpos, hmade, hsign, hpsign, Binary64.ofQuotient_of_near hx hne hden h]
    show (if (Binary64.ofFields false x.exponentField x.fractionField).isInfinite = true then none else _) = _
    rw [hfinal, if_neg Bool.false_ne_true]
    exact congrArg some hsigned

/-! ## What doubles are read as -/

/-- A number is read from a text as what it was. -/
def ReadsAs (s : String) (q : ℚ) : Prop := ∃ n, Number.read? s.toList = some n ∧ n.worth = q

/-- A double is zero, or its digits, with the zeros that a whole number has before and behind the point, make no more
than `2^53`, and none is further behind the point than at the twenty-second place. -/
def IsShort (x : Binary64) : Prop :=
  x.significand = 0 ∨ (Decimal.shortest x).digits * 10 ^ ((Decimal.shortest x).scale + 1).toNat ≤ 2 ^ 53 ∧
    -22 ≤ (Decimal.shortest x).scale

/-- A double other than zero is written as its shortest digits behind its sign, in one of two notations. -/
theorem toList_write (l : Decimal.Layout) (hx : x.isFinite = true) (hne : x.significand ≠ 0) :
    (l.leastExponent.any ((Decimal.shortest x).topExponent < ·) ||
        l.greatestExponent.any (· ≤ (Decimal.shortest x).topExponent)) = true ∧
        (l.write x).toList = (if x.signBit then "-" else "").toList ++ (Decimal.shortest x).scientific.toList ∨
      l.greatestExponent.any (· ≤ (Decimal.shortest x).topExponent) = false ∧
        (l.write x).toList =
          (if x.signBit then "-" else "").toList ++ ((Decimal.shortest x).positional l.pointZero).toList := by
  have hzero : x.isZero = false := by
    rw [← Bool.not_eq_true, Binary64.isZero_iff]
    exact hne
  unfold Decimal.Layout.write
  rw [Binary64.isNaN_of_isFinite hx, Binary64.isInfinite_of_isFinite hx, hzero]
  simp only [Bool.false_eq_true, if_false, Bool.not_false, Bool.or_true, Bool.and_true, ← String.toList_append]
  by_cases houtside : (l.leastExponent.any ((Decimal.shortest x).topExponent < ·) ||
      l.greatestExponent.any (· ≤ (Decimal.shortest x).topExponent)) = true
  · rw [if_pos houtside]
    exact .inl ⟨houtside, rfl⟩
  · rw [if_neg houtside]
    rw [Bool.not_eq_true, Bool.or_eq_false_iff] at houtside
    exact .inr ⟨houtside.2, rfl⟩

/-- Digits that round to a double are read as it where the arithmetic is exact. -/
theorem readsAs_of_scaled (hx : x.isFinite = true) (hne : x.significand ≠ 0) {s : String} {n : Nat} {scale : Int}
    (hread : Number.read? s.toList = Number.float <$> scaled? x.signBit n scale) (hn : n ≠ 0) (hle : n ≤ 2 ^ 53)
    (hscale : scale.natAbs ≤ 22) (h : Near (n * 10 ^ scale) x) : ReadsAs s x.worth := by
  refine ⟨.float x, ?_, rfl⟩
  rw [hread, scaled?_of_near hx hne hn hle hscale h, ← Binary64.eq_ofFields]
  rfl

/-- Digits of a whole number are read as the double that they round to. -/
theorem readsAs_of_integer (hx : x.isFinite = true) (hne : x.significand ≠ 0) {s : String} {n : Nat}
    (hread : Number.read? s.toList = integer? x.signBit ⟨n, 0, false⟩) (hn : n ≠ 0) (hle : n ≤ 2 ^ 53)
    (h : Near n x) : ReadsAs s x.worth := by
  have hone : Near ((n : ℚ) / (1 : Nat)) x := by rwa [Nat.cast_one, div_one]
  have hmade := Binary64.ofQuotient_of_near hx hne Nat.one_pos hone x.signBit
  rw [← Binary64.eq_ofFields] at hmade
  have hexact : ∀ i : Int, i.natAbs = n → decide (i < 0) = x.signBit → x.worth = i := by
    intro i habs hsign
    have hworth := (Binary64.worth_ofInt (i := i) (by omega)).2
    rw [Binary64.ofInt, habs, hsign, hmade] at hworth
    exact hworth
  cases hsign : x.signBit with
  | false =>
    rw [hsign] at hread hexact
    refine ⟨.int n, hread, ?_⟩
    exact (hexact n (Int.natAbs_natCast n) (decide_eq_false (by omega))).symm
  | true =>
    rw [hsign] at hread hexact
    have hint : (int64? (-(n : Int))).isSome = true := by
      have hmin : Int64.minValue.toInt = -2 ^ 63 := rfl
      have hmax : Int64.maxValue.toInt = 2 ^ 63 - 1 := rfl
      rw [int64?, if_pos (by omega)]
      rfl
    obtain ⟨i, hi⟩ := Option.isSome_iff_exists.1 hint
    refine ⟨.int (-n), ?_, (hexact (-n) (by omega) (decide_eq_true (by omega))).symm⟩
    rw [hread, integer?]
    simp only [Bool.false_eq_true, if_false, Bool.not_true, hn]
    rw [hi]
    simp only
    rw [toInt_of_int64? hi]

theorem lt_size_of_le {n : Nat} (h : n ≤ 10 ^ 17) : n < UInt64.size := Nat.lt_of_le_of_lt h (by decide)

theorem worth_of_zero (hzero : x.significand = 0) : x.worth = 0 := by
  rw [Binary64.worth_eq, Binary64.magnitude, hzero, Nat.cast_zero, zero_mul, mul_zero]

/-- A zero is read from its text as what it was. -/
theorem readsAs_of_zero (hx : x.isFinite = true) (hzero : x.significand = 0) {l : Decimal.Layout}
    (hl : l = Decimal.plain ∨ l = numberLayout) : ReadsAs (l.write x) x.worth := by
  have hwritten : l.write x =
      (if x.signBit && l.negativeZero then "-" else "") ++ if l.pointZero then "0.0" else "0" := by
    have hisZero := (Binary64.isZero_iff x).2 hzero
    unfold Decimal.Layout.write
    rw [Binary64.isNaN_of_isFinite hx, Binary64.isInfinite_of_isFinite hx, hisZero]
    simp only [Bool.false_eq_true, if_false, if_true, Bool.not_true, Bool.or_false]
  have hfloat (negative : Bool) : (Number.float (Binary64.zero negative)).worth = 0 :=
    worth_of_zero (by cases negative <;> rfl)
  rw [hwritten, worth_of_zero hzero]
  rcases hl with rfl | rfl <;> cases x.signBit
  · exact ⟨.int 0, rfl, Int.cast_zero⟩
  · exact ⟨.float (Binary64.zero true), rfl, hfloat true⟩
  · exact ⟨.float (Binary64.zero false), rfl, hfloat false⟩
  · exact ⟨.float (Binary64.zero true), rfl, hfloat true⟩

/-- A short double is read from its text as what it was, be it laid out plainly or as JSON does. -/
theorem readsAs_of_short (hx : x.isFinite = true) (h : IsShort x) {l : Decimal.Layout}
    (hl : l = Decimal.plain ∨ l = numberLayout) : ReadsAs (l.write x) x.worth := by
  by_cases hne : x.significand = 0
  · exact readsAs_of_zero hx hne hl
  obtain ⟨hsize, hplaces⟩ := h.resolve_left hne
  obtain ⟨hnear, hdigits, hroom⟩ := Decimal.shortest_spec hx hne
  have hwritten := toList_write l hx hne
  generalize Decimal.shortest x = d at *
  have hpow : 10 ^ (d.scale + 1).toNat ≤ 2 ^ 53 :=
    Nat.le_trans (Nat.le_mul_of_pos_left _ (Nat.pos_of_ne_zero hdigits)) hsize
  have hscale : (d.scale + 1).toNat < 16 := by
    refine (Nat.pow_lt_pow_iff_right (a := 10) (by decide)).1 (Nat.lt_of_le_of_lt hpow (by decide))
  have hle : d.digits ≤ 2 ^ 53 := Nat.le_trans (Nat.le_mul_of_pos_right _ (Nat.pow_pos (by decide))) hsize
  have hlt := lt_size_of_le hroom
  rcases hwritten with ⟨-, hwritten⟩ | ⟨-, hwritten⟩
  · refine readsAs_of_scaled hx hne ?_ hdigits hle (by omega) hnear
    rw [hwritten]
    exact read?_scientific _ hlt (by omega)
  · by_cases hwhole : 0 ≤ d.scale
    · have hvalue : ((d.digits * 10 ^ d.scale.toNat : Nat) : ℚ) = d.value := by
        rw [Decimal.value, Nat.cast_mul, Nat.cast_pow, ← zpow_natCast, Int.toNat_of_nonneg hwhole]
        rfl
      have hten : d.digits * 10 ^ d.scale.toNat * 10 ≤ 2 ^ 53 := by
        have hnext : (d.scale + 1).toNat = d.scale.toNat + 1 := by omega
        rwa [hnext, Nat.pow_succ, ← Nat.mul_assoc] at hsize
      have hpos : d.digits * 10 ^ d.scale.toNat ≠ 0 := Nat.mul_ne_zero hdigits (Nat.pow_pos (by decide)).ne'
      have hfits : d.digits * 10 ^ d.scale.toNat * 10 < UInt64.size := Nat.lt_of_le_of_lt hten (by decide)
      rcases hl with rfl | rfl
      · refine readsAs_of_integer hx hne ?_ hpos (by omega) (by rwa [hvalue])
        rw [hwritten]
        exact read?_whole_of_room _ hdigits hwhole (by omega)
      · have hread : Number.read? (numberLayout.write x).toList =
            Number.float <$> scaled? x.signBit (d.digits * 10 ^ d.scale.toNat * 10) (-1) := by
          rw [hwritten]
          exact read?_whole_point _ hdigits hwhole hfits
        refine readsAs_of_scaled hx hne hread (Nat.mul_ne_zero hpos (by decide)) hten (by decide) ?_
        rw [Nat.cast_mul, hvalue]
        simpa using hnear
    · refine readsAs_of_scaled hx hne ?_ hdigits hle (by omega) hnear
      rw [hwritten]
      exact read?_fraction _ hlt hwhole _

end Json

end Scripting
