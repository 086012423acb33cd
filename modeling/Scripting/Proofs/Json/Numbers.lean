/-
The texts of numbers. Whatever its layout, the text of a finite double is a token of its own: it begins with a digit
or a sign and holds nothing but what stands in numbers. An integer of 64 bits is read from its text as itself.
-/
import Scripting.Proofs.Json.Tokens
import Scripting.Proofs.Value.Json

namespace Scripting

open Json.Lexer (IsFigure isNumberChar)

/-! ## Characters -/

theorem isNumberChar_of_isDigit {c : Char} (h : c.isDigit = true) : isNumberChar c = true := by
  rw [isNumberChar, h]
  rfl

theorem toList_toString (n : Nat) : (toString n).toList = Nat.toDigits 10 n := Nat.toList_repr

theorem isDigit_of_mem_toDigits {n : Nat} : ∀ c ∈ Nat.toDigits 10 n, c.isDigit = true :=
  fun _ hc => Nat.isDigit_of_mem_toDigits (by decide) (by decide) hc

/-- Digits and what else stands in numbers behind them are a number's. -/
theorem isFigure_append {w : List Char} (hw : ∀ c ∈ w, c.isDigit = true) (hne : w ≠ []) (rest : List Char)
    (hrest : ∀ c ∈ rest, isNumberChar c = true) : IsFigure (w ++ rest) := by
  cases w with
  | nil => exact absurd rfl hne
  | cons c w =>
    rw [List.forall_mem_cons] at hw
    refine ⟨by rw [hw.1]; rfl, fun d hd => ?_⟩
    rcases List.mem_append.1 hd with hd | hd
    · exact isNumberChar_of_isDigit (hw.2 d hd)
    · exact hrest d hd

/-- A sign in front of a number makes a number. -/
theorem isFigure_signed {w : List Char} (hw : IsFigure w) (negative : Bool) :
    IsFigure ((if negative then "-" else "").toList ++ w) := by
  cases negative with
  | false => exact hw
  | true =>
    cases w with
    | nil => cases hw
    | cons c w =>
      refine ⟨rfl, fun d hd => ?_⟩
      rcases List.mem_cons.1 hd with rfl | hd
      · exact Json.Lexer.isNumberChar_of_figure hw.1
      · exact hw.2 d hd

theorem isDigit_of_mem_zeros {n : Nat} : ∀ c ∈ List.replicate n '0', c.isDigit = true := by
  intro c hc
  rw [List.eq_of_mem_replicate hc]
  decide

namespace Decimal

/-! ## Layouts -/

variable (d : Decimal)

/-- The digits of a magnitude with zeros in front, so that one is left before the point. -/
def padded : List Char :=
  List.replicate ((-d.scale).toNat + 1 - (Nat.toDigits 10 d.digits).length) '0' ++ Nat.toDigits 10 d.digits

theorem lt_length_padded : (-d.scale).toNat < d.padded.length := by
  rw [padded, List.length_append, List.length_replicate]
  omega

theorem isDigit_of_mem_padded : ∀ c ∈ d.padded, c.isDigit = true := by
  intro c hc
  rcases List.mem_append.1 hc with hc | hc
  · exact isDigit_of_mem_zeros c hc
  · exact isDigit_of_mem_toDigits c hc

theorem toList_positional_whole (h : 0 ≤ d.scale) (pointZero : Bool) : (d.positional pointZero).toList =
    Nat.toDigits 10 d.digits ++ (List.replicate d.scale.toNat '0' ++ if pointZero then ['.', '0'] else []) := by
  rw [positional, if_pos h, String.toList_append, String.toList_append, toList_toString, String.toList_ofList,
    List.append_assoc]
  cases pointZero <;> rfl

theorem toList_positional_fraction (h : ¬ 0 ≤ d.scale) (pointZero : Bool) : (d.positional pointZero).toList =
    d.padded.take (d.padded.length - (-d.scale).toNat) ++
      '.' :: d.padded.drop (d.padded.length - (-d.scale).toNat) := by
  have hlength : (toString d.digits).length = (Nat.toDigits 10 d.digits).length := by
    rw [← toList_toString, String.length_toList]
  rw [positional, if_neg h]
  simp only
  rw [toList_toString, hlength, ← padded, String.toList_append, String.toList_append, List.length_take,
    Nat.min_eq_left (Nat.sub_le _ _), List.append_assoc]
  simp only [String.toList_ofList]
  rfl

/-- The exponent that a magnitude is written with. -/
def exponentText (e : Int) : List Char := 'e' :: (if e < 0 then '-' else '+') :: Nat.toDigits 10 e.natAbs

theorem toList_scientific {c : Char} {rest : List Char} (h : Nat.toDigits 10 d.digits = c :: rest) :
    d.scientific.toList =
      c :: ((if rest = [] then [] else '.' :: rest) ++ exponentText (d.scale + (rest.length + 1 : Nat) - 1)) := by
  unfold scientific exponentText
  simp only
  rw [toList_toString, h, List.length_cons]
  generalize d.scale + ((rest.length + 1 : Nat) : Int) - 1 = e
  have hsign : (if e < 0 then "-" else "+" : String).toList = [if e < 0 then '-' else '+'] := by
    split <;> rfl
  cases rest <;> simp [hsign, Char.toString_eq_singleton]

theorem isFigure_positional (pointZero : Bool) : IsFigure (d.positional pointZero).toList := by
  by_cases hscale : 0 ≤ d.scale
  · rw [toList_positional_whole d hscale]
    refine isFigure_append isDigit_of_mem_toDigits Nat.toDigits_ne_nil _ fun c hc => ?_
    rcases List.mem_append.1 hc with hc | hc
    · exact isNumberChar_of_isDigit (isDigit_of_mem_zeros c hc)
    · cases pointZero with
      | false => cases hc
      | true =>
        have hpoint : ∀ c ∈ ['.', '0'], isNumberChar c = true := List.all_eq_true.1 (by decide)
        exact hpoint c hc
  · rw [toList_positional_fraction d hscale]
    have hlength := lt_length_padded d
    refine isFigure_append (fun c hc => isDigit_of_mem_padded d c (List.mem_of_mem_take hc)) ?_ _ fun c hc => ?_
    · rw [ne_eq, List.take_eq_nil_iff, ← List.length_eq_zero_iff]
      omega
    · rcases List.mem_cons.1 hc with rfl | hc
      · decide
      · exact isNumberChar_of_isDigit (isDigit_of_mem_padded d c (List.mem_of_mem_drop hc))

theorem isNumberChar_of_mem_exponentText {e : Int} : ∀ c ∈ exponentText e, isNumberChar c = true := by
  intro c hc
  rcases List.mem_cons.1 hc with rfl | hc
  · decide
  · rcases List.mem_cons.1 hc with rfl | hc
    · split <;> decide
    · exact isNumberChar_of_isDigit (isDigit_of_mem_toDigits c hc)

theorem isFigure_scientific : IsFigure d.scientific.toList := by
  cases hdigits : Nat.toDigits 10 d.digits with
  | nil => exact absurd hdigits Nat.toDigits_ne_nil
  | cons c rest =>
    have hall := isDigit_of_mem_toDigits (n := d.digits)
    rw [hdigits, List.forall_mem_cons] at hall
    rw [toList_scientific d hdigits]
    refine isFigure_append (w := [c]) (by simpa using hall.1) (List.cons_ne_nil _ _) _ fun e he => ?_
    rcases List.mem_append.1 he with he | he
    · split at he
      · cases he
      · rcases List.mem_cons.1 he with rfl | he
        · decide
        · exact isNumberChar_of_isDigit (hall.2 e he)
    · exact isNumberChar_of_mem_exponentText e he

/-- A finite double is written as one token, however it is laid out. -/
theorem isFigure_write (l : Layout) {x : Binary64} (hx : x.isFinite = true) : IsFigure (l.write x).toList := by
  unfold Layout.write
  rw [Binary64.isNaN_of_isFinite hx, Binary64.isInfinite_of_isFinite hx]
  simp only [Bool.false_eq_true, if_false]
  split
  · rw [String.toList_append]
    refine isFigure_signed ?_ _
    cases l.pointZero <;> exact ⟨rfl, List.all_eq_true.1 rfl⟩
  · rw [String.toList_append]
    refine isFigure_signed ?_ _
    split
    · exact isFigure_scientific _
    · exact isFigure_positional _ _

end Decimal

namespace Json

/-! ## Digits that are read -/

/-- The digits that a text of digits stands for. -/
def figures (w : List Char) : List Nat := w.map fun c => c.toNat - '0'.toNat

/-- The digits of a whole number: there are some, and no needless zero is in front. -/
structure IsWhole (w : List Char) : Prop where
  digits : ∀ c ∈ w, c.isDigit = true
  ne_nil : w ≠ []
  lead : ∀ rest, w = '0' :: rest → rest = []

theorem spanDigits_append {w : List Char} (hw : ∀ c ∈ w, c.isDigit = true) (rest : List Char)
    (hrest : ∀ c ∈ rest.head?, c.isDigit = false) : spanDigits (w ++ rest) = (figures w, rest) := by
  have htake : (w ++ rest).takeWhile Char.isDigit = w := by
    rw [List.takeWhile_append_of_pos hw]
    cases rest with
    | nil => simp
    | cons c rest => simp [hrest c rfl]
  rw [spanDigits, htake, List.drop_left]
  rfl

theorem eq_zero_of_figure {c : Char} (hc : c.isDigit = true) (h : c.toNat - '0'.toNat = 0) : c = '0' := by
  have hle : '0'.toNat ≤ c.toNat := by
    simp only [Char.isDigit, Bool.and_eq_true, decide_eq_true_eq, UInt32.le_iff_toNat_le] at hc
    exact hc.1
  rw [← Char.ofNat_toNat c, show c.toNat = '0'.toNat by omega]
  rfl

/-- A literal is read by its sign, its whole digits and what stands behind them. -/
theorem read?_signed (negative : Bool) {w : List Char} (hw : IsWhole w) (rest : List Char)
    (hrest : ∀ c ∈ rest.head?, c.isDigit = false) :
    Number.read? ((if negative then "-" else "").toList ++ (w ++ rest)) =
      Number.behind? negative ((figures w).foldl Gathered.whole ⟨0, 0, false⟩) rest := by
  obtain ⟨hdigits, hne, hlead⟩ := hw
  have hspan := spanDigits_append hdigits rest hrest
  have hunsigned : Number.unsigned? negative (w ++ rest) =
      Number.behind? negative ((figures w).foldl Gathered.whole ⟨0, 0, false⟩) rest := by
    unfold Number.unsigned?
    rw [hspan]
    simp only
    split
    · rename_i hnil
      exact absurd (List.map_eq_nil_iff.1 hnil) hne
    · rename_i d ds hzero
      cases w with
      | nil => cases hzero
      | cons c w =>
        rw [List.forall_mem_cons] at hdigits
        simp only [figures, List.map_cons, List.cons.injEq] at hzero
        rw [eq_zero_of_figure hdigits.1 hzero.1] at hlead
        rw [hlead w rfl] at hzero
        cases hzero.2
    · rfl
  cases negative with
  | true => exact hunsigned
  | false =>
    rw [← hunsigned]
    cases w with
    | nil => exact absurd rfl hne
    | cons c w =>
      rw [List.forall_mem_cons] at hdigits
      show Number.read? (c :: (w ++ rest)) = Number.unsigned? false (c :: (w ++ rest))
      unfold Number.read?
      split
      · rename_i heq
        rw [(List.cons.inj heq).1] at hdigits
        exact absurd hdigits.1 (by decide)
      · rfl

theorem le_ofDigitChars (w : List Char) (n : Nat) : n ≤ Nat.ofDigitChars 10 w n := by
  have hpos : 0 < 10 ^ w.length := Nat.pow_pos (by decide)
  have hle := Nat.le_mul_of_pos_left n hpos
  rw [Nat.ofDigitChars_eq_ofDigitChars_zero]
  omega

/-- Digits for which there is room are gathered into the number that they write. -/
theorem foldl_whole {w : List Char} {n : Nat} (scale : Int) (h : Nat.ofDigitChars 10 w n < UInt64.size) :
    (figures w).foldl Gathered.whole ⟨n, scale, false⟩ = ⟨Nat.ofDigitChars 10 w n, scale, false⟩ := by
  induction w generalizing n with
  | nil => rfl
  | cons c rest ih =>
    rw [Nat.ofDigitChars_cons, Nat.mul_comm] at h ⊢
    have hfits : Gathered.fits ⟨n, scale, false⟩ (c.toNat - '0'.toNat) = true := by
      rw [Gathered.fits, Bool.not_false, Bool.true_and, decide_eq_true_iff]
      exact Nat.lt_of_le_of_lt (le_ofDigitChars rest _) h
    show (figures rest).foldl Gathered.whole (Gathered.whole ⟨n, scale, false⟩ (c.toNat - '0'.toNat)) = _
    rw [Gathered.whole, if_pos hfits]
    exact ih h

theorem foldl_fractional {w : List Char} {n : Nat} (scale : Int) (h : Nat.ofDigitChars 10 w n < UInt64.size) :
    (figures w).foldl Gathered.fractional ⟨n, scale, false⟩ =
      ⟨Nat.ofDigitChars 10 w n, scale - w.length, false⟩ := by
  induction w generalizing n scale with
  | nil => simp [figures]
  | cons c rest ih =>
    rw [Nat.ofDigitChars_cons, Nat.mul_comm] at h ⊢
    have hfits : Gathered.fits ⟨n, scale, false⟩ (c.toNat - '0'.toNat) = true := by
      rw [Gathered.fits, Bool.not_false, Bool.true_and, decide_eq_true_iff]
      exact Nat.lt_of_le_of_lt (le_ofDigitChars rest _) h
    show (figures rest).foldl Gathered.fractional (Gathered.fractional ⟨n, scale, false⟩ (c.toNat - '0'.toNat)) = _
    rw [Gathered.fractional, if_pos hfits]
    simp only
    rw [ih _ h, List.length_cons]
    congr 1
    omega

theorem isWhole_toDigits (n : Nat) : IsWhole (Nat.toDigits 10 n) := by
  refine ⟨isDigit_of_mem_toDigits, Nat.toDigits_ne_nil, ?_⟩
  induction n using Nat.base_induction 10 (by decide) with
  | single m hm =>
    rw [Nat.toDigits_of_lt_base hm]
    intro rest hrest
    exact ((List.cons.inj hrest).2).symm
  | digit m k hk hm ih =>
    rw [← Nat.toDigits_append_toDigits (by decide) hm hk]
    intro rest hrest
    cases hfirst : Nat.toDigits 10 m with
    | nil => exact absurd hfirst Nat.toDigits_ne_nil
    | cons c w =>
      rw [hfirst] at hrest
      cases hrest
      have hw := ih w hfirst
      rw [hw] at hfirst
      have hzero : Nat.ofDigitChars 10 ['0'] 0 = m := by rw [← hfirst, Nat.ofDigitChars_ten_toDigits]
      exact absurd hzero (Nat.ne_of_lt hm)

/-- The text of a number where doubles are laid out in some way. -/
def Number.textIn (l : Decimal.Layout) : Number → String
  | .int i => toString i
  | .float x => l.write x

theorem Number.text_eq (n : Number) : n.text = n.textIn numberLayout := by cases n <;> rfl

/-- A number as its text is read. -/
def Number.reread? (l : Decimal.Layout) (n : Number) : Option Number := Number.read? (n.textIn l).toList

theorem foldl_toDigits {n : Nat} (h : n < UInt64.size) :
    (figures (Nat.toDigits 10 n)).foldl Gathered.whole ⟨0, 0, false⟩ = ⟨n, 0, false⟩ := by
  rw [foldl_whole 0 (by rw [Nat.ofDigitChars_ten_toDigits]; exact h), Nat.ofDigitChars_ten_toDigits]

/-- An integer of 64 bits is read from its text as itself. -/
theorem reread?_int (l : Decimal.Layout) {i : Int} (h : (int64? i).isSome = true) :
    (Number.int i).reread? l = some (.int i) := by
  have hrange : Int64.minValue.toInt ≤ i ∧ i ≤ Int64.maxValue.toInt := by
    by_contra hout
    rw [int64?, if_neg hout] at h
    cases h
  obtain ⟨hmin, hmax⟩ : -2 ^ 63 ≤ i ∧ i < 2 ^ 63 := ⟨hrange.1, Int.lt_of_le_sub_one hrange.2⟩
  have hsize : UInt64.size = 2 ^ 64 := rfl
  have hread : ∀ (negative : Bool) (n : Nat), n < UInt64.size →
      Number.read? ((if negative then "-" else "").toList ++ Nat.toDigits 10 n) = integer? negative ⟨n, 0, false⟩ := by
    intro negative n hn
    have hsigned := read?_signed negative (isWhole_toDigits n) [] (by simp)
    rw [List.append_nil, foldl_toDigits hn] at hsigned
    exact hsigned
  rw [Number.reread?, Number.textIn, Int.toString_eq_repr, Int.repr_eq_if]
  split
  · rename_i hpos
    have hsigned := hread false i.toNat (by omega)
    rw [Nat.toList_repr]
    refine hsigned.trans ?_
    show some (Number.int (i.toNat : Int)) = _
    rw [Int.toNat_of_nonneg hpos]
  · rename_i hneg
    rw [String.toList_append, Nat.toList_repr]
    refine (hread true (-i).toNat (by omega)).trans ?_
    have hcast : (((-i).toNat : Nat) : Int) = -i := Int.toNat_of_nonneg (by omega)
    have hzero : ¬ (-i).toNat = 0 := by omega
    obtain ⟨x, hx⟩ := Option.isSome_iff_exists.1 h
    unfold integer?
    simp only [Bool.false_eq_true, if_false, Bool.not_true, hzero, hcast, Int.neg_neg]
    rw [hx]
    simp only
    rw [toInt_of_int64? hx]

end Json

end Scripting
