/-
Laws of association lists: what is found after a store or a removal, and that stores keep the keys in
strictly ascending order, so that no key stands in a list twice. Entries with different keys, stored in
any order, are the same list: their one arrangement in order (`ofList_perm`, `Ascending.eq_of_perm`).
-/
import Scripting.Assoc
import Mathlib.Data.List.Basic
import Mathlib.Data.List.Dedup
import Mathlib.Data.List.Induction
import Mathlib.Data.List.Nodup
import Mathlib.Data.List.Perm.Basic

namespace Scripting.Assoc

variable {κ α β : Type} [Ord κ]

/-! ## Finding -/

@[simp] theorem find?_nil (k : κ) : find? k ([] : Assoc κ α) = none := rfl

theorem find?_eq_none_of_contains {k : κ} {m : Assoc κ α} (h : ¬ contains k m = true) :
    find? k m = none := by
  unfold contains at h
  simpa using h

section Lawful

variable [Std.LawfulEqOrd κ]

theorem find?_cons_self (k : κ) (a : α) (m : Assoc κ α) : find? k ((k, a) :: m) = some a := by
  simp [find?]

theorem find?_cons_of_ne {k k' : κ} (h : k ≠ k') (a : α) (m : Assoc κ α) :
    find? k ((k', a) :: m) = find? k m := by
  simp [find?, h]

@[simp] theorem find?_insert_self (k : κ) (a : α) (m : Assoc κ α) :
    find? k (insert k a m) = some a := by
  induction m with
  | nil => exact find?_cons_self k a []
  | cons e rest ih =>
    obtain ⟨k', a'⟩ := e
    unfold insert
    split
    · exact find?_cons_self k a _
    · exact find?_cons_self k a _
    · rename_i hc
      have hne : k ≠ k' := by rintro rfl; simp at hc
      rw [find?_cons_of_ne hne, ih]

theorem find?_insert_of_ne {k k' : κ} (h : k' ≠ k) (a : α) (m : Assoc κ α) :
    find? k' (insert k a m) = find? k' m := by
  induction m with
  | nil => exact find?_cons_of_ne h a []
  | cons e rest ih =>
    obtain ⟨l, b⟩ := e
    unfold insert
    split
    · exact find?_cons_of_ne h a _
    · rename_i hc
      obtain rfl := Std.LawfulEqCmp.compare_eq_iff_eq.1 hc
      rw [find?_cons_of_ne h, find?_cons_of_ne h]
    · by_cases hl : k' = l
      · subst hl; rw [find?_cons_self, find?_cons_self]
      · rw [find?_cons_of_ne hl, find?_cons_of_ne hl, ih]

theorem find?_insert [DecidableEq κ] (k k' : κ) (a : α) (m : Assoc κ α) :
    find? k' (insert k a m) = if k' = k then some a else find? k' m := by
  split
  · rename_i h; subst h; exact find?_insert_self k' a m
  · rename_i h; exact find?_insert_of_ne h a m

@[simp] theorem find?_erase_self (k : κ) (m : Assoc κ α) : find? k (erase k m) = none := by
  induction m with
  | nil => rfl
  | cons e rest ih =>
    obtain ⟨l, b⟩ := e
    unfold erase at ih ⊢
    rw [List.filter_cons]
    by_cases hl : k = l
    · subst hl; simpa using ih
    · simp only [ne_eq, Std.LawfulEqCmp.compare_eq_iff_eq, hl, not_false_eq_true, bne_iff_ne,
        if_true]
      rw [find?_cons_of_ne hl, ih]

theorem find?_erase_of_ne {k k' : κ} (h : k' ≠ k) (m : Assoc κ α) :
    find? k' (erase k m) = find? k' m := by
  induction m with
  | nil => rfl
  | cons e rest ih =>
    obtain ⟨l, b⟩ := e
    unfold erase at ih ⊢
    rw [List.filter_cons]
    split
    · by_cases hl : k' = l
      · subst hl; rw [find?_cons_self, find?_cons_self]
      · rw [find?_cons_of_ne hl, find?_cons_of_ne hl, ih]
    · rename_i hc
      simp only [bne_iff_ne, ne_eq, Std.LawfulEqCmp.compare_eq_iff_eq, not_not] at hc
      subst hc
      rw [ih, find?_cons_of_ne h]

theorem mem_of_find? {k : κ} {a : α} {m : Assoc κ α} (h : find? k m = some a) : (k, a) ∈ m := by
  induction m with
  | nil => cases h
  | cons e rest ih =>
    obtain ⟨l, b⟩ := e
    by_cases hl : k = l
    · subst hl
      rw [find?_cons_self, Option.some.injEq] at h
      subst h; exact List.mem_cons_self ..
    · rw [find?_cons_of_ne hl] at h
      exact List.mem_cons_of_mem _ (ih h)

theorem find?_eq_none {k : κ} {m : Assoc κ α} (h : k ∉ keys m) : find? k m = none := by
  cases hf : find? k m with
  | none => rfl
  | some a => exact absurd (List.mem_map_of_mem (f := Prod.fst) (mem_of_find? hf)) h

/-- What is found in entries and others behind them. -/
theorem find?_append (k : κ) (m m' : Assoc κ α) : find? k (m ++ m') = (find? k m).or (find? k m') := by
  induction m with
  | nil => rfl
  | cons e rest ih =>
    obtain ⟨l, b⟩ := e
    by_cases hl : k = l
    · subst hl
      rw [List.cons_append, find?_cons_self, find?_cons_self, Option.some_or]
    · rw [List.cons_append, find?_cons_of_ne hl, find?_cons_of_ne hl, ih]

end Lawful

/-- An entry behind a store is the one that was stored, or was there before. -/
theorem mem_insert {k : κ} {a : α} {m : Assoc κ α} {e : κ × α} (h : e ∈ insert k a m) : e = (k, a) ∨ e ∈ m := by
  induction m with
  | nil => exact .inl (List.mem_singleton.1 h)
  | cons x rest ih =>
    obtain ⟨l, b⟩ := x
    unfold insert at h
    split at h
    · exact List.mem_cons.1 h
    · exact (List.mem_cons.1 h).imp_right (List.mem_cons_of_mem _)
    · rcases List.mem_cons.1 h with rfl | h
      · exact .inr List.mem_cons_self
      · exact (ih h).imp_right (List.mem_cons_of_mem _)

/-! ## Order -/

/-- The keys ascend strictly. -/
def Ascending (m : Assoc κ α) : Prop := (keys m).Pairwise fun a b => compare a b = .lt

theorem ascending_nil : Ascending ([] : Assoc κ α) := List.Pairwise.nil

theorem mem_keys_insert [Std.LawfulEqOrd κ] {k x : κ} {a : α} {m : Assoc κ α} :
    x ∈ keys (insert k a m) ↔ x = k ∨ x ∈ keys m := by
  induction m with
  | nil => simp [insert, keys]
  | cons e rest ih =>
    obtain ⟨l, b⟩ := e
    unfold insert
    split
    · simp [keys]
    · rename_i hc
      obtain rfl := Std.LawfulEqCmp.compare_eq_iff_eq.1 hc
      simp [keys]
    · unfold keys at ih ⊢
      rw [List.map_cons, List.mem_cons, ih, List.map_cons, List.mem_cons]
      tauto

theorem ascending_insert [Std.LawfulEqOrd κ] [Std.TransOrd κ] {m : Assoc κ α} (h : Ascending m)
    (k : κ) (a : α) : Ascending (insert k a m) := by
  induction m with
  | nil => simp [Ascending, insert, keys]
  | cons e rest ih =>
    obtain ⟨l, b⟩ := e
    have hl : ∀ x ∈ keys rest, compare l x = .lt := (List.pairwise_cons.1 h).1
    have hr : Ascending rest := (List.pairwise_cons.1 h).2
    unfold insert
    split
    · rename_i hc
      refine List.pairwise_cons.2 ⟨fun x hx => ?_, h⟩
      rcases List.mem_cons.1 hx with rfl | hx
      · exact hc
      · exact Std.TransCmp.lt_trans hc (hl x hx)
    · rename_i hc
      obtain rfl := Std.LawfulEqCmp.compare_eq_iff_eq.1 hc
      exact h
    · rename_i hc
      refine List.pairwise_cons.2 ⟨fun x hx => ?_, ih hr⟩
      rcases mem_keys_insert.1 hx with rfl | hx
      · exact Std.OrientedCmp.lt_of_gt hc
      · exact hl x hx

theorem ascending_cons {k : κ} {a : α} {m : Assoc κ α} :
    Ascending ((k, a) :: m) ↔ (∀ l ∈ keys m, compare k l = .lt) ∧ Ascending m := List.pairwise_cons

/-- The first keys of entries in order with the same keys are the same. -/
theorem first_key_eq [Std.OrientedOrd κ] {k k' : κ} {a : α} {b : β} {m : Assoc κ α} {m' : Assoc κ β}
    (h : Ascending ((k, a) :: m)) (h' : Ascending ((k', b) :: m'))
    (hk : k ∈ keys ((k', b) :: m')) (hk' : k' ∈ keys ((k, a) :: m)) : k = k' := by
  rcases List.mem_cons.1 hk with rfl | hk
  · rfl
  · rcases List.mem_cons.1 hk' with rfl | hk'
    · rfl
    · have hlt : compare k k' = .lt := (ascending_cons.1 h).1 k' hk'
      have hgt : compare k' k = .lt := (ascending_cons.1 h').1 k hk
      rw [Std.OrientedCmp.gt_of_lt hlt] at hgt
      cases hgt

theorem Ascending.nodup [Std.ReflOrd κ] {m : Assoc κ α} (h : Ascending m) : (keys m).Nodup := by
  refine List.Pairwise.imp (fun {a b} hab => ?_) h
  rintro rfl
  simp at hab

/-- Where no key stands twice, every entry is the one that is found under its key. -/
theorem find?_of_mem_nodup [Std.LawfulEqOrd κ] {m : Assoc κ α} (h : (keys m).Nodup) {k : κ} {a : α} (hk : (k, a) ∈ m) :
    find? k m = some a := by
  induction m with
  | nil => cases hk
  | cons e rest ih =>
    obtain ⟨l, b⟩ := e
    rcases List.mem_cons.1 hk with hk | hk
    · cases hk
      exact find?_cons_self k a rest
    · have hmem : k ∈ keys rest := List.mem_map_of_mem (f := Prod.fst) hk
      have hne : k ≠ l := fun hkl => (List.nodup_cons.1 h).1 (hkl ▸ hmem)
      rw [find?_cons_of_ne hne]
      exact ih (List.nodup_cons.1 h).2 hk

theorem find?_of_mem [Std.LawfulEqOrd κ] {m : Assoc κ α} (h : Ascending m) {k : κ} {a : α} (hk : (k, a) ∈ m) :
    find? k m = some a := find?_of_mem_nodup h.nodup hk

/-! ## Entries in any order -/

/-- Entries in order are known by what they are. -/
theorem Ascending.eq_of_perm [Std.TransOrd κ] {m m' : Assoc κ α} (hm : Ascending m) (hm' : Ascending m')
    (h : m.Perm m') : m = m' := by
  refine h.eq_of_pairwise ?_ (List.pairwise_map.1 hm) (List.pairwise_map.1 hm')
  intro a b _ _ hab hba
  rw [Std.OrientedCmp.gt_of_lt hab] at hba
  cases hba

theorem ascending_map {m : Assoc κ α} (f : α → β) : Ascending (m.map fun e => (e.1, f e.2)) ↔ Ascending m := by
  unfold Ascending keys
  rw [List.map_map]
  rfl

omit [Ord κ] in
theorem keys_map (m : Assoc κ α) (f : α → β) : keys (m.map fun e => (e.1, f e.2)) = keys m := by
  unfold keys
  rw [List.map_map]
  rfl

section Storing

variable [Std.LawfulEqOrd κ]

theorem insert_perm {k : κ} {m : Assoc κ α} (h : k ∉ keys m) (a : α) : (insert k a m).Perm ((k, a) :: m) := by
  induction m with
  | nil => exact .refl _
  | cons e rest ih =>
    obtain ⟨l, b⟩ := e
    unfold insert
    split
    · exact .refl _
    · rename_i hc
      obtain rfl := Std.LawfulEqCmp.compare_eq_iff_eq.1 hc
      exact absurd List.mem_cons_self h
    · exact ((ih fun hk => h (List.mem_cons_of_mem _ hk)).cons _).trans (.swap _ _ _)

theorem foldl_insert_perm (l : List (κ × α)) (m : Assoc κ α) (h : (keys (m ++ l)).Nodup) :
    (l.foldl (fun m e => insert e.1 e.2 m) m).Perm (m ++ l) := by
  induction l generalizing m with
  | nil => rw [List.append_nil]; exact .refl _
  | cons e rest ih =>
    have hmove : ((e.1, e.2) :: m ++ rest).Perm (m ++ e :: rest) := List.perm_middle.symm
    have hnew : e.1 ∉ keys m := by
      have hfirst := (hmove.map Prod.fst).nodup_iff.2 h
      intro hk
      exact (List.nodup_cons.1 hfirst).1 (by simp [keys] at hk ⊢; exact .inl hk)
    have hins := (insert_perm hnew e.2).append_right rest
    exact ((ih _ (((hins.trans hmove).map Prod.fst).nodup_iff.2 h)).trans hins).trans hmove

/-- Of what is stored one by one, the last under a key is found. -/
theorem find?_foldl_insert (k : κ) (l : List (κ × α)) (m : Assoc κ α) :
    find? k (l.foldl (fun m e => insert e.1 e.2 m) m) = (find? k l.reverse).or (find? k m) := by
  induction l generalizing m with
  | nil => rfl
  | cons e rest ih =>
    obtain ⟨l, a⟩ := e
    rw [List.foldl_cons, ih, List.reverse_cons, find?_append, Option.or_assoc]
    congr 1
    by_cases hl : k = l
    · subst hl
      rw [find?_insert_self, find?_cons_self, Option.some_or]
    · rw [find?_insert_of_ne hl, find?_cons_of_ne hl, find?_nil, Option.none_or]

/-- Entries whose keys are all different are the same entries when they are in order. -/
theorem ofList_perm {l : List (κ × α)} (h : (keys l).Nodup) : (ofList l).Perm l := foldl_insert_perm l [] h

omit [Std.LawfulEqOrd κ] in
theorem ofList_append_singleton (l : List (κ × α)) (k : κ) (a : α) : ofList (l ++ [(k, a)]) = insert k a (ofList l) := by
  unfold ofList
  rw [List.foldl_append]
  rfl

/-- The keys of entries that are stored one by one are those of the entries. -/
theorem mem_keys_ofList (l : List (κ × α)) (k : κ) : k ∈ keys (ofList l) ↔ k ∈ keys l := by
  induction l using List.reverseRecOn with
  | nil => exact Iff.rfl
  | append_singleton l e ih =>
    rw [ofList_append_singleton, mem_keys_insert, ih, keys, keys, List.map_append, List.mem_append,
      List.map_singleton, List.mem_singleton, or_comm]

/-- Entries whose keys are all different are found as they are when they are in order. -/
theorem find?_ofList {l : List (κ × α)} (h : (keys l).Nodup) (k : κ) : find? k (ofList l) = find? k l := by
  have hperm := ofList_perm h
  have hnodup : (keys (ofList l)).Nodup := (hperm.map Prod.fst).nodup_iff.2 h
  cases hf : find? k l with
  | some a => exact find?_of_mem_nodup hnodup (hperm.mem_iff.2 (mem_of_find? hf))
  | none =>
    cases hg : find? k (ofList l) with
    | none => rfl
    | some a =>
      rw [find?_of_mem_nodup h (hperm.mem_iff.1 (mem_of_find? hg))] at hf
      cases hf

variable [Std.TransOrd κ]

theorem ascending_ofList (l : List (κ × α)) : Ascending (ofList l) := by
  suffices h : ∀ m : Assoc κ α, Ascending m → Ascending (l.foldl (fun m e => insert e.1 e.2 m) m) from h [] ascending_nil
  induction l with
  | nil => exact fun _ h => h
  | cons e rest ih => exact fun m h => ih _ (ascending_insert h _ _)

omit [Std.LawfulEqOrd κ] [Std.TransOrd κ] in
theorem mem_of_mem_ofList {l : List (κ × α)} {e : κ × α} (h : e ∈ ofList l) : e ∈ l := by
  suffices hf : ∀ m : Assoc κ α, e ∈ l.foldl (fun m e => insert e.1 e.2 m) m → e ∈ m ∨ e ∈ l from
    (hf [] h).resolve_left nofun
  clear h
  induction l with
  | nil => exact fun _ h => .inl h
  | cons x rest ih =>
    intro m h
    rcases ih _ h with h | h
    · exact (mem_insert h).elim (fun h => .inr (h ▸ List.mem_cons_self)) .inl
    · exact .inr (List.mem_cons_of_mem _ h)

theorem ofList_eq_of_perm {l l' : List (κ × α)} (h : l.Perm l') (hn : (keys l).Nodup) : ofList l = ofList l' :=
  (ascending_ofList l).eq_of_perm (ascending_ofList l')
    (((ofList_perm hn).trans h).trans (ofList_perm ((h.map Prod.fst).nodup_iff.1 hn)).symm)

theorem ofList_of_ascending {m : Assoc κ α} (h : Ascending m) : ofList m = m :=
  (ascending_ofList m).eq_of_perm h (ofList_perm h.nodup)

/-- The keys of entries that are stored one by one are those of the entries, each once. -/
theorem keys_ofList_perm [DecidableEq κ] (l : List (κ × α)) : (keys (ofList l)).Perm (keys l).dedup := by
  refine (List.perm_ext_iff_of_nodup (ascending_ofList l).nodup (List.nodup_dedup _)).2 fun k => ?_
  rw [mem_keys_ofList, List.mem_dedup]

/-- A store adds an entry exactly if there was none under its key. -/
theorem length_insert {m : Assoc κ α} (h : Ascending m) (k : κ) (a : α) :
    (insert k a m).length = if (find? k m).isNone then m.length + 1 else m.length := by
  induction m with
  | nil => rfl
  | cons e rest ih =>
    obtain ⟨l, b⟩ := e
    obtain ⟨hl, hr⟩ := ascending_cons.1 h
    unfold insert
    split
    · rename_i hc
      have hnew : k ∉ keys ((l, b) :: rest) := by
        intro hk
        rcases List.mem_cons.1 hk with rfl | hk
        · simp at hc
        · have hback : compare l k = .lt := hl k hk
          rw [Std.OrientedCmp.gt_of_lt hc] at hback
          cases hback
      rw [find?_eq_none hnew]
      rfl
    · rename_i hc
      obtain rfl := Std.LawfulEqCmp.compare_eq_iff_eq.1 hc
      rw [find?_cons_self]
      rfl
    · rename_i hc
      have hne : k ≠ l := by rintro rfl; simp at hc
      rw [List.length_cons, ih hr, find?_cons_of_ne hne, List.length_cons]
      split <;> rfl

/-- None of the entries that are stored one by one is lost exactly if their keys are different. -/
theorem length_ofList_iff {l : List (κ × α)} : (ofList l).length = l.length ↔ (keys l).Nodup := by
  constructor
  · intro hlen
    have hkeys : keys (ofList l) ⊆ keys l := List.map_subset _ fun _ he => mem_of_mem_ofList he
    have hnodup : (keys (ofList l)).Nodup := (ascending_ofList l).nodup
    have hcount : (keys (ofList l)).length = (keys l).length := by
      rw [keys, keys, List.length_map, List.length_map, hlen]
    have hperm : (keys (ofList l)).Perm (keys l) := (List.subperm_of_subset hnodup hkeys).perm_of_length_le (Nat.le_of_eq hcount.symm)
    exact hperm.nodup_iff.1 hnodup
  · intro h
    exact (ofList_perm h).length_eq

/-- Entries with different keys are in order when they are stored one by one. -/
theorem mergeSort_eq_ofList {l : List (κ × α)} (h : (keys l).Nodup) :
    (l.mergeSort fun a b => (compare a.1 b.1).isLE) = ofList l := by
  have hperm : (l.mergeSort fun a b => (compare a.1 b.1).isLE).Perm l := List.mergeSort_perm _ _
  refine Ascending.eq_of_perm ?_ (ascending_ofList l) (hperm.trans (ofList_perm h).symm)
  have hsorted : (l.mergeSort fun a b => (compare a.1 b.1).isLE).Pairwise fun a b => (compare a.1 b.1).isLE = true := by
    refine List.pairwise_mergeSort ?_ ?_ _
    · intro a b c hab hbc
      exact Std.TransCmp.isLE_trans hab hbc
    · intro a b
      have hswap : compare b.1 a.1 = (compare a.1 b.1).swap := Std.OrientedCmp.eq_swap
      rw [hswap]
      cases compare a.1 b.1 <;> rfl
  have hne : (l.mergeSort fun a b => (compare a.1 b.1).isLE).Pairwise fun a b => a.1 ≠ b.1 :=
    List.pairwise_map.1 ((hperm.map Prod.fst).nodup_iff.2 h)
  refine List.pairwise_map.2 ((hsorted.and hne).imp ?_)
  rintro a b ⟨hle, hab⟩
  cases hc : compare a.1 b.1 with
  | lt => rfl
  | eq => exact absurd (Std.LawfulEqCmp.eq_of_compare hc) hab
  | gt => rw [hc] at hle; cases hle

theorem ofList_map {l : List (κ × α)} (h : (keys l).Nodup) (f : α → β) :
    ofList (l.map fun e => (e.1, f e.2)) = (ofList l).map fun e => (e.1, f e.2) := by
  refine (ascending_ofList _).eq_of_perm ((ascending_map f).2 (ascending_ofList l)) ?_
  exact (ofList_perm (by rw [keys_map]; exact h)).trans ((ofList_perm h).symm.map _)

end Storing

/-! ## Removing -/

section Removing

variable [Std.LawfulEqOrd κ]

theorem mem_erase {k : κ} {m : Assoc κ α} {e : κ × α} : e ∈ erase k m ↔ e ∈ m ∧ e.1 ≠ k := by
  unfold erase
  rw [List.mem_filter, bne_iff_ne, ne_eq, Std.LawfulEqCmp.compare_eq_iff_eq]
  exact and_congr_right fun _ => not_congr eq_comm

theorem not_mem_keys_erase (k : κ) (m : Assoc κ α) : k ∉ keys (erase k m) := by
  intro h
  obtain ⟨e, he, hk⟩ := List.mem_map.1 h
  exact (mem_erase.1 he).2 hk

theorem keys_erase [BEq κ] [LawfulBEq κ] (k : κ) (m : Assoc κ α) : keys (erase k m) = (keys m).filter (· != k) := by
  unfold keys erase
  rw [List.filter_map]
  refine congrArg (List.map Prod.fst) (List.filter_congr fun e _ => ?_)
  rw [Function.comp_apply, Bool.eq_iff_iff, bne_iff_ne, bne_iff_ne, ne_eq, Std.LawfulEqCmp.compare_eq_iff_eq]
  exact not_congr eq_comm

theorem erase_of_not_mem {k : κ} {m : Assoc κ α} (h : k ∉ keys m) : erase k m = m := by
  refine List.filter_eq_self.2 fun e he => ?_
  have hne : k ≠ e.1 := fun hk => h (List.mem_map.2 ⟨e, he, hk.symm⟩)
  simp [hne]

omit [Std.LawfulEqOrd κ] in
theorem erase_map (k : κ) (m : Assoc κ α) (f : α → β) :
    erase k (m.map fun e => (e.1, f e.2)) = (erase k m).map fun e => (e.1, f e.2) := by
  unfold erase
  rw [List.filter_map]
  rfl

theorem erase_insert_self (k : κ) (a : α) (m : Assoc κ α) : erase k (insert k a m) = erase k m := by
  induction m with
  | nil => simp [insert, erase]
  | cons e rest ih =>
    obtain ⟨l, b⟩ := e
    unfold insert
    split
    · simp [erase]
    · rename_i hc
      simp [erase, hc]
    · unfold erase at ih ⊢
      rw [List.filter_cons, List.filter_cons, ih]

omit [Std.LawfulEqOrd κ] in
theorem ascending_erase {m : Assoc κ α} (h : Ascending m) (k : κ) : Ascending (erase k m) :=
  List.Pairwise.sublist (List.filter_sublist.map Prod.fst) h

/-- An entry that is taken out and stored again leaves the list as it was. -/
theorem insert_erase [Std.TransOrd κ] {m : Assoc κ α} (h : Ascending m) {k : κ} {a : α} (hk : (k, a) ∈ m) :
    insert k a (erase k m) = m := by
  refine (ascending_insert (ascending_erase h k) k a).eq_of_perm h ((insert_perm (not_mem_keys_erase k m) a).trans ?_)
  have hnodup : m.Nodup := List.Nodup.of_map Prod.fst h.nodup
  refine (List.perm_ext_iff_of_nodup ?_ hnodup).2 fun e => ?_
  · exact List.nodup_cons.2 ⟨fun hm => (mem_erase.1 hm).2 rfl, hnodup.filter _⟩
  · rw [List.mem_cons, mem_erase]
    constructor
    · rintro (rfl | he)
      · exact hk
      · exact he.1
    · intro he
      by_cases hek : e.1 = k
      · -- the list has one entry under the key
        have hfound : find? e.1 m = some e.2 := find?_of_mem h he
        rw [hek, find?_of_mem h hk, Option.some.injEq] at hfound
        exact .inl (Prod.ext hek hfound.symm)
      · exact .inr ⟨he, hek⟩

end Removing

end Scripting.Assoc
