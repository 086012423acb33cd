/-
Laws of values: the order of keys, records whose fields are set one after the other, what holds of all
values inside of one, and equality, which holds of a value and itself unless a NaN stands in it.
-/
import Scripting.Value.Order
import Scripting.Proofs.Assoc

namespace Scripting

/-! ## Keys -/

namespace Key

instance : Std.OrientedOrd Key where
  eq_swap {a b} :=
    match a, b with
    | .bool a, .bool b => show compare a b = (compare b a).swap from Std.OrientedCmp.eq_swap
    | .int a, .int b => show compare a.toInt b.toInt = (compare b.toInt a.toInt).swap from Std.OrientedCmp.eq_swap
    | .string a, .string b => show compare a b = (compare b a).swap from Std.OrientedCmp.eq_swap
    | .bool _, .int _ | .bool _, .string _ | .int _, .string _ => rfl
    | .int _, .bool _ | .string _, .bool _ | .string _, .int _ => rfl

instance : Std.TransOrd Key where
  isLE_trans {a b c} hab hbc := by
    -- keys of different sorts are ordered by their sorts alone
    cases a with
    | bool a =>
      cases c with
      | int c | string c => rfl
      | bool c =>
        cases b with
        | bool b => exact (Std.TransCmp.isLE_trans :
          (compare a b).isLE = true → (compare b c).isLE = true → (compare a c).isLE = true) hab hbc
        | int b | string b => cases hbc
    | int a =>
      cases c with
      | string c => rfl
      | bool c =>
        cases b with
        | bool b => cases hab
        | int b | string b => cases hbc
      | int c =>
        cases b with
        | bool b => cases hab
        | int b => exact (Std.TransCmp.isLE_trans : (compare a.toInt b.toInt).isLE = true →
          (compare b.toInt c.toInt).isLE = true → (compare a.toInt c.toInt).isLE = true) hab hbc
        | string b => cases hbc
    | string a =>
      cases b with
      | bool b | int b => cases hab
      | string b =>
        cases c with
        | bool c | int c => cases hbc
        | string c => exact (Std.TransCmp.isLE_trans :
          (compare a b).isLE = true → (compare b c).isLE = true → (compare a c).isLE = true) hab hbc

instance : Std.LawfulEqOrd Key where
  compare_self {a} :=
    match a with
    | .bool a => show compare a a = .eq from Std.ReflCmp.compare_self
    | .int a => show compare a.toInt a.toInt = .eq from Std.ReflCmp.compare_self
    | .string a => show compare a a = .eq from Std.ReflCmp.compare_self
  eq_of_compare {a b} h := by
    cases a with
    | bool a =>
      cases b with
      | bool b => exact congrArg _ (Std.LawfulEqCmp.eq_of_compare (show compare a b = .eq from h))
      | int b | string b => cases h
    | int a =>
      cases b with
      | int b =>
        exact congrArg _ (Int64.toInt_inj.1 (Std.LawfulEqCmp.eq_of_compare (show compare a.toInt b.toInt = .eq from h)))
      | bool b | string b => cases h
    | string a =>
      cases b with
      | string b => exact congrArg _ (Std.LawfulEqCmp.eq_of_compare (show compare a b = .eq from h))
      | bool b | int b => cases h

end Key

/-! ## Records -/

namespace Record

theorem setField_of_not_mem {name : String} {fields : List (String × Value)} (h : name ∉ fields.map Prod.fst) (v : Value) :
    setField name v fields = fields ++ [(name, v)] := by
  induction fields with
  | nil => rfl
  | cons f rest ih =>
    obtain ⟨n, w⟩ := f
    simp only [List.map_cons, List.mem_cons, not_or] at h
    rw [setField, if_neg (Ne.symm h.1), ih h.2]
    rfl

/-- Fields with different names are all there, in the order in which they were set. -/
theorem ofFields_of_nodup (typeName : String) {fields : List (String × Value)} (h : (fields.map Prod.fst).Nodup) :
    ofFields typeName fields = ⟨typeName, fields⟩ := by
  suffices hset : ∀ before : List (String × Value), ((before ++ fields).map Prod.fst).Nodup →
      fields.foldl (fun r f => r.set f.1 f.2) ⟨typeName, before⟩ = (⟨typeName, before ++ fields⟩ : Record) from
    hset [] h
  clear h
  induction fields with
  | nil => intro before _; simp
  | cons f rest ih =>
    intro before hn
    have hnew : f.1 ∉ before.map Prod.fst := by
      rw [List.map_append, List.nodup_append] at hn
      intro hf
      exact hn.2.2 _ hf _ List.mem_cons_self rfl
    rw [List.foldl_cons, Record.set, setField_of_not_mem hnew, ih _ (by simpa using hn)]
    simp

end Record

/-! ## All values inside of one -/

namespace Value

section

variable (p : Value → Prop)

mutual

/-- Something holds of a value and of every value inside of it. -/
def All : Value → Prop
  | .record typeName fields => p (.record typeName fields) ∧ AllFields fields
  | .ordered type items => p (.ordered type items) ∧ AllItems items
  | .keyed type entries => p (.keyed type entries) ∧ AllEntries entries
  | .plural type items => p (.plural type items) ∧ AllItems items
  | v => p v

def AllItems : List Value → Prop
  | [] => True
  | v :: rest => All v ∧ AllItems rest

def AllFields : List (String × Value) → Prop
  | [] => True
  | (_, v) :: rest => All v ∧ AllFields rest

def AllEntries : List (Key × Value) → Prop
  | [] => True
  | (_, v) :: rest => All v ∧ AllEntries rest

end

variable {p}

theorem allFields_iff {fields : List (String × Value)} : AllFields p fields ↔ ∀ f ∈ fields, f.2.All p := by
  induction fields with
  | nil => simp [AllFields]
  | cons f rest ih => simp [AllFields, ih]

theorem allEntries_iff {entries : List (Key × Value)} : AllEntries p entries ↔ ∀ e ∈ entries, e.2.All p := by
  induction entries with
  | nil => simp [AllEntries]
  | cons e rest ih => simp [AllEntries, ih]

end

/-! ## Equality -/

/-- A value is no NaN. -/
def NotNaN : Value → Prop
  | .float x => x.isNaN = false
  | _ => True

end Value

theorem Binary64.same_self {x : Binary64} (h : x.isNaN = false) : x.same x = true := by
  unfold same compare?
  rw [h]
  simp only [Bool.or_self, Bool.false_eq_true, if_false]
  split <;> simp [Std.ReflCmp.compare_self]

namespace Value

mutual

theorem same_self : ∀ v : Value, v.All NotNaN → v.same v = true
  | .void, _ => by rw [same]
  | .bool _, _ | .int _, _ | .string _, _ | .handle _, _ => by simp [same]
  | .float _, h => by rw [same]; exact Binary64.same_self h
  | .record _ fields, h => by simp [same, sameFields_self fields h.2]
  | .ordered _ items, h | .plural _ items, h => by rw [same, sameItems_self items h.2]
  | .keyed _ entries, h => by rw [same, sameEntries_self entries h.2]

theorem sameItems_self : ∀ items : List Value, AllItems NotNaN items → sameItems items items = true
  | [], _ => by rw [sameItems]
  | v :: rest, h => by rw [sameItems, same_self v h.1, sameItems_self rest h.2, Bool.and_self]

theorem sameFields_self : ∀ fields : List (String × Value), AllFields NotNaN fields →
    sameFields fields fields = true
  | [], _ => by rw [sameFields]
  | (n, v) :: rest, h => by simp [sameFields, same_self v h.1, sameFields_self rest h.2]

theorem sameEntries_self : ∀ entries : List (Key × Value), AllEntries NotNaN entries →
    sameEntries entries entries = true
  | [], _ => by rw [sameEntries]
  | (k, v) :: rest, h => by simp [sameEntries, same_self v h.1, sameEntries_self rest h.2]

end

end Value

end Scripting
