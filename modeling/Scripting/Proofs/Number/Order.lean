/-
The order of doubles. A double that is no NaN has a place on the line of rationals with an end on either side;
two are compared by their places, so that comparison is a partial order in which a NaN is comparable to nothing,
itself included, and the two zeros stand in one place.
-/
import Scripting.Proofs.Number.Worth
import Mathlib.Order.Compare
import Mathlib.Order.WithBot

namespace Scripting.Binary64

/-- The place of a double on the line. -/
def place (x : Binary64) : WithBot (WithTop ℚ) :=
  if x.isInfinite then (if x.signBit then ⊥ else ⊤) else ((x.worth : WithTop ℚ) : WithBot (WithTop ℚ))

theorem place_infinite {x : Binary64} (h : x.isInfinite = true) : x.place = if x.signBit then ⊥ else ⊤ := if_pos h

theorem place_finite {x : Binary64} (h : x.isInfinite = false) :
    x.place = ((x.worth : WithTop ℚ) : WithBot (WithTop ℚ)) := by
  rw [place, h]
  rfl

/-- A number in units of some power of two is worth what it was. -/
theorem cast_inUnits (i : Int) {e unit : Int} (h : unit ≤ e) : (inUnits i e unit : ℚ) * 2 ^ unit = i * 2 ^ e := by
  obtain ⟨n, hn⟩ := Int.eq_ofNat_of_zero_le (Int.sub_nonneg.2 h)
  have he : e = n + unit := by omega
  rw [inUnits, hn, he, Int.toNat_natCast, Nat.one_shiftLeft, zpow_add₀ two_ne_zero, zpow_natCast]
  push_cast
  rw [mul_assoc]

theorem compare_inUnits {i j e e' unit : Int} (he : unit ≤ e) (he' : unit ≤ e') :
    compare (inUnits i e unit) (inUnits j e' unit) = compare ((i : ℚ) * 2 ^ e) ((j : ℚ) * 2 ^ e') := by
  have hmono : StrictMono fun k : Int => (k : ℚ) * 2 ^ unit := by
    intro k l hkl
    exact mul_lt_mul_of_pos_right (Int.cast_lt.2 hkl) (zpow_pos two_pos unit)
  rw [← cast_inUnits i he, ← cast_inUnits j he', ← cmp_eq_compare, ← cmp_eq_compare]
  exact (hmono.cmp_map_eq _ _).symm

/-- Doubles are compared by their places. -/
theorem compare?_eq {x y : Binary64} (hx : x.isNaN = false) (hy : y.isNaN = false) :
    x.compare? y = some (compare x.place y.place) := by
  have hlow (q : ℚ) : (⊥ : WithBot (WithTop ℚ)) < (q : WithTop ℚ) := WithBot.bot_lt_coe _
  have hhigh (q : ℚ) : ((q : WithTop ℚ) : WithBot (WithTop ℚ)) < ⊤ := WithBot.coe_lt_coe.2 (WithTop.coe_lt_top q)
  have hends : (⊥ : WithBot (WithTop ℚ)) < ⊤ := (hlow 0).trans (hhigh 0)
  unfold compare?
  rw [hx, hy, Bool.or_false, if_neg Bool.false_ne_true]
  -- an infinity is at an end, whatever the other is
  cases hxi : x.isInfinite with
  | true =>
    cases hyi : y.isInfinite with
    | true =>
      rw [place_infinite hxi, place_infinite hyi]
      cases hsx : x.signBit <;> cases hsy : y.signBit <;>
        simp only [hxi, hyi, hsx, hsy, Bool.or_true, if_true, Bool.false_eq_true, if_false, Std.ReflCmp.compare_self,
          compare_lt_iff_lt.2 hends, compare_gt_iff_gt.2 hends] <;> rfl
    | false =>
      rw [place_infinite hxi, place_finite hyi]
      cases hsx : x.signBit <;>
        simp only [hxi, hyi, hsx, Bool.or_false, if_true, Bool.false_eq_true, if_false,
          compare_lt_iff_lt.2 (hlow _), compare_gt_iff_gt.2 (hhigh _)] <;> rfl
  | false =>
    cases hyi : y.isInfinite with
    | true =>
      rw [place_finite hxi, place_infinite hyi]
      cases hsy : y.signBit <;>
        simp only [hxi, hyi, hsy, Bool.or_true, if_true, Bool.false_eq_true, if_false,
          compare_lt_iff_lt.2 (hhigh _), compare_gt_iff_gt.2 (hlow _)] <;> rfl
    | false =>
      have hmono : StrictMono fun q : ℚ => ((q : WithTop ℚ) : WithBot (WithTop ℚ)) := by
        intro p q hpq
        exact WithBot.coe_lt_coe.2 (WithTop.coe_lt_coe.2 hpq)
      rw [place_finite hxi, place_finite hyi, Bool.or_false, if_neg Bool.false_ne_true]
      simp only
      rw [compare_inUnits (min_le_left _ _) (min_le_right _ _), ← cmp_eq_compare, ← cmp_eq_compare]
      exact congrArg some (hmono.cmp_map_eq _ _).symm

theorem compare?_eq_some_iff {x y : Binary64} {o : Ordering} :
    x.compare? y = some o ↔ x.isNaN = false ∧ y.isNaN = false ∧ compare x.place y.place = o := by
  constructor
  · intro h
    cases hx : x.isNaN with
    | true =>
      rw [compare?, hx] at h
      cases h
    | false =>
      cases hy : y.isNaN with
      | true =>
        rw [compare?, hy, Bool.or_true] at h
        cases h
      | false =>
        rw [compare?_eq hx hy, Option.some.injEq] at h
        exact ⟨rfl, rfl, h⟩
  · rintro ⟨hx, hy, h⟩
    rw [compare?_eq hx hy, h]

/-- Two doubles the other way round are in the other order. -/
theorem compare?_swap (x y : Binary64) : y.compare? x = (x.compare? y).map Ordering.swap := by
  refine Option.ext fun o => ?_
  rw [Option.map_eq_some_iff, compare?_eq_some_iff]
  constructor
  · rintro ⟨hy, hx, h⟩
    refine ⟨o.swap, compare?_eq_some_iff.2 ⟨hx, hy, ?_⟩, Ordering.swap_swap⟩
    rw [← h]
    exact Std.OrientedCmp.eq_swap
  · rintro ⟨o, h, rfl⟩
    obtain ⟨hx, hy, rfl⟩ := compare?_eq_some_iff.1 h
    exact ⟨hy, hx, Std.OrientedCmp.eq_swap⟩

theorem compare?_trans {x y z : Binary64} (hxy : x.compare? y = some .lt) (hyz : y.compare? z = some .lt) :
    x.compare? z = some .lt := by
  obtain ⟨hx, -, hxy⟩ := compare?_eq_some_iff.1 hxy
  obtain ⟨-, hz, hyz⟩ := compare?_eq_some_iff.1 hyz
  exact compare?_eq_some_iff.2 ⟨hx, hz, compare_lt_iff_lt.2 ((compare_lt_iff_lt.1 hxy).trans (compare_lt_iff_lt.1 hyz))⟩

theorem same_iff_compare? {x y : Binary64} : x.same y = true ↔ x.compare? y = some .eq := beq_iff_eq

theorem same_iff {x y : Binary64} : x.same y = true ↔ x.isNaN = false ∧ y.isNaN = false ∧ x.place = y.place := by
  rw [same_iff_compare?, compare?_eq_some_iff, compare_eq_iff_eq]

theorem same_comm (x y : Binary64) : x.same y = y.same x := by
  rw [Bool.eq_iff_iff, same_iff, same_iff]
  constructor <;> exact fun ⟨hx, hy, h⟩ => ⟨hy, hx, h.symm⟩

theorem same_trans {x y z : Binary64} (hxy : x.same y = true) (hyz : y.same z = true) : x.same z = true := by
  obtain ⟨hx, -, hxy⟩ := same_iff.1 hxy
  obtain ⟨-, hz, hyz⟩ := same_iff.1 hyz
  exact same_iff.2 ⟨hx, hz, hxy.trans hyz⟩

end Scripting.Binary64
