/-
Integers that values are read as. A number denotes an integer if that is just what it is worth. Reading 32 bits gives
the integer that a value denotes, says that there is no room for it, or says that there is none, each exactly where
that is so. Reading 64 bits tells the same integers, but for one that has no room there it gives the nearest that has,
so that a double past the range is misread (`integers_read_unless_past_range`).
-/
import Scripting.Value.Convert
import Scripting.Proofs.Number.Worth

namespace Scripting.Value

/-! ## What numbers denote -/

/-- The rational that an integer or a finite double is. -/
def rational? : Value → Option ℚ
  | .int i => some i.toInt
  | .float x => if x.isFinite then some x.worth else none
  | _ => none

/-- The value is worth exactly this integer. -/
def Denotes (v : Value) (n : Int) : Prop := v.rational? = some (n : ℚ)

section

variable {v : Value} {i : Int64} {x : Binary64} {n m : Int}

theorem Denotes.unique (hn : v.Denotes n) (hm : v.Denotes m) : n = m :=
  Int.cast_injective (Option.some.inj (hn.symm.trans hm))

theorem denotes_int : (Value.int i).Denotes n ↔ n = i.toInt := by
  rw [Denotes, rational?, Option.some.injEq, Int.cast_inj, eq_comm]

theorem denotes_float : (Value.float x).Denotes n ↔ x.isWhole = true ∧ n = x.truncate := by
  rw [Denotes, rational?, Binary64.isWhole_iff, Option.ite_none_right_eq_some, Option.some.injEq, and_assoc]
  refine and_congr_right fun hf => ?_
  constructor
  · intro h
    refine ⟨⟨n, h⟩, ?_⟩
    rw [Binary64.worth_of_isWhole (Binary64.isWhole_of_worth hf h), Int.cast_inj] at h
    exact h.symm
  · rintro ⟨⟨m, h⟩, rfl⟩
    exact Binary64.worth_of_isWhole (Binary64.isWhole_of_worth hf h)

/-! ## Reading 64 bits -/

/-- Of an integer past the range the nearest end of the range is taken. -/
theorem toInt_ofIntClamp (n : Int) : (Int64.ofIntClamp n).toInt = max (-2 ^ 63) (min n (2 ^ 63 - 1)) := by
  have hmin : Int64.minValue.toInt = -2 ^ 63 := rfl
  have hmax : Int64.maxValue.toInt = 2 ^ 63 - 1 := rfl
  unfold Int64.ofIntClamp
  split
  · split
    · rw [Int64.toInt_ofIntLE]
      omega
    · omega
  · omega

/-- A value is read as an integer exactly if it denotes one. -/
theorem asInt64_cases (v : Value) :
    (∃ n, v.Denotes n ∧ v.asInt64 = some (Int64.ofIntClamp n)) ∨ (∀ n, ¬ v.Denotes n) ∧ v.asInt64 = none := by
  cases v with
  | int i => exact .inl ⟨i.toInt, denotes_int.2 rfl, congrArg some (Int64.ofIntClamp_toInt i).symm⟩
  | float x =>
    rw [asInt64]
    by_cases hx : x.isWhole = true
    · rw [if_pos hx]
      exact .inl ⟨x.truncate, denotes_float.2 ⟨hx, rfl⟩, rfl⟩
    · rw [if_neg hx]
      exact .inr ⟨fun n hn => hx (denotes_float.1 hn).1, rfl⟩
  | void | bool _ | string _ | record _ _ | ordered _ _ | keyed _ _ | plural _ _ | handle _ => exact .inr ⟨nofun, rfl⟩

theorem asInt64_eq_some_iff :
    v.asInt64 = some i ↔ ∃ n, v.Denotes n ∧ i.toInt = max (-2 ^ 63) (min n (2 ^ 63 - 1)) := by
  rcases asInt64_cases v with ⟨n, hn, h⟩ | ⟨hnone, h⟩
  · rw [h, Option.some.injEq]
    constructor
    · rintro rfl
      exact ⟨n, hn, toInt_ofIntClamp n⟩
    · rintro ⟨m, hm, hi⟩
      rw [← hn.unique hm, ← toInt_ofIntClamp] at hi
      exact (Int64.toInt_inj.1 hi).symm
  · rw [h]
    exact iff_of_false nofun fun ⟨n, hn, _⟩ => hnone n hn

/-- An integer is read as it is exactly if it is in range. -/
theorem denotes_read_iff (h : v.asInt64 = some i) : v.Denotes i.toInt ↔ ∀ n, v.Denotes n → -2 ^ 63 ≤ n ∧ n < 2 ^ 63 := by
  obtain ⟨n, hn, hi⟩ := asInt64_eq_some_iff.1 h
  constructor
  · intro hv m hm
    obtain rfl := hv.unique hm
    exact ⟨Int64.le_toInt i, Int64.toInt_lt i⟩
  · intro hrange
    have := hrange n hn
    have heq : i.toInt = n := by omega
    rwa [heq]

theorem toInt64_eq_ok_iff : v.toInt64 = .ok i ↔ v.asInt64 = some i := by
  unfold toInt64 orMismatch
  cases v.asInt64 <;> simp

/-- What denotes no integer is told by its sort. -/
theorem toInt64_eq_error_iff {e : ConversionError} :
    v.toInt64 = .error e ↔ (∀ n, ¬ v.Denotes n) ∧ e = .typeMismatch "int" v.sortName := by
  unfold toInt64 orMismatch
  rcases asInt64_cases v with ⟨n, hn, h⟩ | ⟨hno, h⟩
  · rw [h]
    exact iff_of_false nofun fun hno => hno.1 n hn
  · rw [h, Except.error.injEq, eq_comm]
    exact (and_iff_right hno).symm

end

/-! ## Narrower reading -/

section

variable {α : Type} {v : Value}

/-- What comes of reading an integer into a type that has those from `low` to `high`: the integer that the value
denotes, that there is no room for it, or that it denotes none. -/
structure ReadsIn (low high : Int) (toInt : α → Int) (v : Value) (result : Except ConversionError α) : Prop where
  ok : ∀ a, result = .ok a ↔ v.Denotes (toInt a)
  overflow : result = .error .integerOverflow ↔ ∃ n, v.Denotes n ∧ ¬ (low ≤ n ∧ n ≤ high)
  mismatch : ∀ expected actual, result = .error (.typeMismatch expected actual) ↔
    (∀ n, ¬ v.Denotes n) ∧ expected = "int" ∧ actual = v.sortName

/-- An integer for which there may be no room. -/
def fitted : Option α → Except ConversionError α
  | some a => .ok a
  | none => .error .integerOverflow

/-- Reading 64 bits first and then seeing whether there is room for what was read is reading in the narrower range:
where an end of the wider range stands for an integer past it, the narrower range has room for neither. -/
theorem readsIn_fitted {low high : Int} {toInt : α → Int} {narrow : Int → Option α}
    (hlow : -2 ^ 63 < low) (hhigh : high < 2 ^ 63 - 1) (hsome : ∀ n a, narrow n = some a ↔ toInt a = n)
    (hnone : ∀ n, narrow n = none ↔ ¬ (low ≤ n ∧ n ≤ high)) (v : Value) :
    ReadsIn low high toInt v (v.toInt64 >>= fun i => fitted (narrow i.toInt)) := by
  have hroom (a : α) : low ≤ toInt a ∧ toInt a ≤ high := by
    by_contra hno
    rw [← hnone, (hsome _ a).2 rfl] at hno
    cases hno
  have hinj {a b : α} (h : toInt a = toInt b) : a = b :=
    Option.some.inj (((hsome _ a).2 rfl).symm.trans ((hsome _ b).2 h.symm))
  rcases asInt64_cases v with ⟨n, hn, h⟩ | ⟨hno, -⟩
  · have hread : (v.toInt64 >>= fun i => fitted (narrow i.toInt)) = fitted (narrow (Int64.ofIntClamp n).toInt) := by
      rw [toInt64_eq_ok_iff.2 h]
      rfl
    have hend := toInt_ofIntClamp n
    rw [hread]
    cases hfit : narrow (Int64.ofIntClamp n).toInt with
    | some a =>
      have ha := hroom a
      have hsame : toInt a = n := by
        have := (hsome _ a).1 hfit
        omega
      subst hsame
      refine ⟨fun b => ?_, iff_of_false nofun ?_, fun e a => iff_of_false nofun fun hno => hno.1 _ hn⟩
      · rw [fitted, Except.ok.injEq]
        constructor
        · rintro rfl
          exact hn
        · intro hb
          exact hinj (hn.unique hb)
      · rintro ⟨m, hm, hout⟩
        obtain rfl := hn.unique hm
        exact hout ha
    | none =>
      have hout := (hnone _).1 hfit
      refine ⟨fun b => iff_of_false nofun fun hb => ?_, iff_of_true rfl ⟨n, hn, by omega⟩,
        fun e a => iff_of_false nofun fun hno => hno.1 _ hn⟩
      obtain rfl := hn.unique hb
      have := hroom b
      omega
  · have hread : (v.toInt64 >>= fun i => fitted (narrow i.toInt)) = .error (.typeMismatch "int" v.sortName) := by
      rw [toInt64_eq_error_iff.2 ⟨hno, rfl⟩]
      rfl
    rw [hread]
    refine ⟨fun a => iff_of_false nofun (hno _), iff_of_false nofun fun ⟨n, hn, _⟩ => hno n hn, fun e a => ?_⟩
    rw [Except.error.injEq, ConversionError.typeMismatch.injEq]
    constructor
    · rintro ⟨rfl, rfl⟩
      exact ⟨hno, rfl, rfl⟩
    · rintro ⟨-, rfl, rfl⟩
      exact ⟨rfl, rfl⟩

theorem int32?_eq_some_iff {n : Int} {i : Int32} : int32? n = some i ↔ i.toInt = n := by
  unfold int32?
  split
  · rename_i h
    have hback : (Int32.ofInt n).toInt = n := Int32.toInt_ofInt_of_le h.1 (Int.lt_add_one_of_le h.2)
    rw [Option.some.injEq, ← Int32.toInt_inj, hback, eq_comm]
  · rename_i h
    refine iff_of_false nofun ?_
    rintro rfl
    exact h ⟨Int32.minValue_le_toInt i, Int32.toInt_le i⟩

theorem int32?_eq_none_iff {n : Int} : int32? n = none ↔ ¬ (-2 ^ 31 ≤ n ∧ n ≤ 2 ^ 31 - 1) := by
  unfold int32?
  split
  · rename_i h
    exact iff_of_false nofun fun hno => hno h
  · rename_i h
    exact iff_of_true rfl h

/-- The integer as one of 32 bits without a sign, if it is in their range. -/
def uint32? : Int → Option UInt32
  | .ofNat n => if n < UInt32.size then some n.toUInt32 else none
  | .negSucc _ => none

theorem uint32?_eq_some_iff {n : Int} {i : UInt32} : uint32? n = some i ↔ (i.toNat : Int) = n := by
  cases n with
  | ofNat n =>
    rw [uint32?, Int.ofNat_eq_natCast, Int.natCast_inj]
    split
    · rename_i h
      have hback : n.toUInt32.toNat = n := UInt32.toNat_ofNat_of_lt h
      rw [Option.some.injEq, ← UInt32.toNat_inj, hback, eq_comm]
    · rename_i h
      refine iff_of_false nofun ?_
      rintro rfl
      exact h i.toNat_lt
  | negSucc n => exact iff_of_false nofun nofun

theorem uint32?_eq_none_iff {n : Int} : uint32? n = none ↔ ¬ (0 ≤ n ∧ n ≤ 2 ^ 32 - 1) := by
  have hsize : UInt32.size = 2 ^ 32 := rfl
  cases n with
  | ofNat n =>
    rw [uint32?, ite_eq_right_iff, Int.ofNat_eq_natCast]
    simp only [reduceCtorEq, imp_false]
    omega
  | negSucc n => exact iff_of_true rfl (by omega)

theorem toInt32_readsIn (v : Value) : ReadsIn (-2 ^ 31) (2 ^ 31 - 1) Int32.toInt v v.toInt32 := by
  have hfitted : v.toInt32 = v.toInt64 >>= fun i => fitted (int32? i.toInt) := by
    unfold toInt32
    congr 1
    funext i
    cases int32? i.toInt <;> rfl
  rw [hfitted]
  exact readsIn_fitted (by omega) (by omega) (fun _ _ => int32?_eq_some_iff) (fun _ => int32?_eq_none_iff) v

theorem toUInt32_readsIn (v : Value) : ReadsIn 0 (2 ^ 32 - 1) (fun i : UInt32 => (i.toNat : Int)) v v.toUInt32 := by
  have hfitted : v.toUInt32 = v.toInt64 >>= fun i => fitted (uint32? i.toInt) := by
    unfold toUInt32
    congr 1
    funext i
    unfold uint32?
    cases i.toInt with
    | ofNat n =>
      simp only
      split <;> rfl
    | negSucc n => rfl
  rw [hfitted]
  exact readsIn_fitted (by omega) (by omega) (fun _ _ => uint32?_eq_some_iff) (fun _ => uint32?_eq_none_iff) v

end

/-- A value is read as 64 bits exactly if it denotes an integer; what is read is that integer if it is in range and
else the nearest end of the range, so that the value denotes what was read exactly if it denotes nothing past the
range. Nothing else is read, and then the sort of the value is told. Read as 32 bits, with a sign or without, a value
gives the integer that it denotes and no other, there is no room exactly for one outside the range, and the sort of
the value is told exactly if it denotes none. -/
theorem integers_read_unless_past_range (v : Value) :
    (∀ i, v.asInt64 = some i ↔ ∃ n, v.Denotes n ∧ i.toInt = max (-2 ^ 63) (min n (2 ^ 63 - 1))) ∧
    (∀ i, v.asInt64 = some i → (v.Denotes i.toInt ↔ ∀ n, v.Denotes n → -2 ^ 63 ≤ n ∧ n < 2 ^ 63)) ∧
    (∀ i, v.toInt64 = .ok i ↔ v.asInt64 = some i) ∧
    (∀ e, v.toInt64 = .error e ↔ (∀ n, ¬ v.Denotes n) ∧ e = .typeMismatch "int" v.sortName) ∧
    ReadsIn (-2 ^ 31) (2 ^ 31 - 1) Int32.toInt v v.toInt32 ∧
    ReadsIn 0 (2 ^ 32 - 1) (fun i : UInt32 => (i.toNat : Int)) v v.toUInt32 := by
  refine ⟨fun i => asInt64_eq_some_iff, fun i => denotes_read_iff, fun i => toInt64_eq_ok_iff,
    fun e => toInt64_eq_error_iff, toInt32_readsIn v, toUInt32_readsIn v⟩

/-- The least integer past the range, which doubles have. -/
def firstPast : Binary64 := ⟨0x43E0000000000000⟩

/-- The double is worth `2^63` and is read as the integer before it. -/
theorem misread_past_range : (Value.float firstPast).Denotes (2 ^ 63) ∧
    (Value.float firstPast).asInt64 = some Int64.maxValue ∧ (Value.float firstPast).toInt64 = .ok Int64.maxValue ∧
    ¬ (Value.float firstPast).Denotes Int64.maxValue.toInt := by
  have hworth : (Value.float firstPast).Denotes (2 ^ 63) := denotes_float.2 ⟨rfl, rfl⟩
  refine ⟨hworth, rfl, rfl, fun h => ?_⟩
  have := h.unique hworth
  revert this
  decide

end Scripting.Value
