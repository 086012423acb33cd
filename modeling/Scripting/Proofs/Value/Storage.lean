/-
How aggregates store. However an aggregate begins and whatever callers try to store in it, what is found behind a
store is what a map would give, and a store that is refused leaves the aggregate as it was. An ordered one refuses
just the keys that are no index, that would leave a gap or that lie behind its size, so the indices below its size
are taken and no others (`stores_like_map`). Its elements are in order exactly if its type is indexed by integers,
unless it began as a map, and an ordered one never has more elements than its type has places; a keyed one takes
every key, whatever size its type has (`fits_type_unless_keyed`).
-/
import Scripting.Proofs.Value.Aggregate

namespace Scripting

/-- Whether elements are found by their place in a row. -/
def Elements.isOrdered : Elements → Bool
  | .ordered _ => true
  | .keyed _ => false

namespace Aggregate

/-! ## Aggregates after attempts to store -/

/-- What an aggregate is after an attempt to store an element under a key. -/
def attempt (a : Aggregate) (e : Key × Value) : Aggregate :=
  match a.insert e.1 e.2 with
  | .ok a' => a'
  | .error _ => a

/-- How an aggregate begins. -/
inductive Origin where
  | empty (type : AggregateType)
  | list (data : ValueType) (items : List Value)
  | map (index data : ValueType) (entries : List (Key × Value))

namespace Origin

def made : Origin → Aggregate
  | .empty type => .empty type
  | .list data items => .list data items
  | .map index data entries => .map index data entries

/-- An aggregate after attempts to store, one after the other. -/
def after (o : Origin) (attempts : List (Key × Value)) : Aggregate := attempts.foldl attempt o.made

/-- A map that is declared to be indexed by integers. -/
def IsIntegerMap : Origin → Prop
  | .map .int _ _ => True
  | _ => False

end Origin

section

variable {a a' : Aggregate} {k l : Key} {v : Value} {items : List Value} {n : Nat}

theorem insert_type (hs : a.insert k v = .ok a') : a'.type = a.type := by
  rcases insert_cases hs with ⟨entries, -, rfl⟩ | ⟨items, i, n, -, -, -, -, rfl⟩
  · rfl
  · rfl

/-- A store never turns a row into entries by key, nor entries into a row. -/
theorem insert_isOrdered (hs : a.insert k v = .ok a') : a'.elements.isOrdered = a.elements.isOrdered := by
  rcases insert_cases hs with ⟨entries, he, rfl⟩ | ⟨items, i, n, he, -, -, -, rfl⟩
  · rw [he]
    rfl
  · rw [he]
    rfl

theorem attempt_cases (a : Aggregate) (e : Key × Value) :
    a.insert e.1 e.2 = .ok (a.attempt e) ∨ ∃ refusal, a.insert e.1 e.2 = .error refusal ∧ a.attempt e = a := by
  unfold attempt
  cases hs : a.insert e.1 e.2 with
  | ok a' => exact .inl rfl
  | error refusal => exact .inr ⟨refusal, rfl, rfl⟩

theorem Origin.built_made (o : Origin) : o.made.Built := by
  cases o with
  | empty type => exact .empty type
  | list data items => exact .list data items
  | map index data entries => exact .map index data entries

/-- What is kept by every store that succeeds is kept by any number of attempts. -/
theorem Origin.after_induction {P : Aggregate → Prop} (o : Origin) (h : P o.made)
    (hkept : ∀ {a a' k v}, P a → a.insert k v = .ok a' → P a') (attempts : List (Key × Value)) : P (o.after attempts) := by
  unfold Origin.after
  generalize o.made = a at h
  induction attempts generalizing a with
  | nil => exact h
  | cons e rest ih =>
    rw [List.foldl_cons]
    rcases attempt_cases a e with hs | ⟨-, -, heq⟩
    · exact ih _ (hkept h hs)
    · rw [heq]
      exact ih a h

theorem Origin.built_after (o : Origin) (attempts : List (Key × Value)) : (o.after attempts).Built :=
  o.after_induction o.built_made Built.insert attempts

theorem Origin.type_after (o : Origin) (attempts : List (Key × Value)) : (o.after attempts).type = o.made.type :=
  o.after_induction (P := fun a => a.type = o.made.type) rfl (fun h hs => (insert_type hs).trans h) attempts

theorem Origin.isOrdered_after (o : Origin) (attempts : List (Key × Value)) :
    (o.after attempts).elements.isOrdered = o.made.elements.isOrdered :=
  o.after_induction (P := fun a => a.elements.isOrdered = o.made.elements.isOrdered) rfl
    (fun h hs => (insert_isOrdered hs).trans h) attempts

/-! ## Places in a row -/

theorem position?_eq_some_iff {i : Int64} : position? i = some n ↔ i.toInt = n := by
  unfold position?
  split
  · rw [Option.some.injEq]
    omega
  · simp only [reduceCtorEq, false_iff]
    omega

theorem position?_eq_none_iff {i : Int64} : position? i = none ↔ i.toInt < 0 := by
  unfold position?
  split
  · simp only [reduceCtorEq, false_iff]
    omega
  · simp only [true_iff]
    omega

theorem takes_iff {type : AggregateType} {length : Nat} :
    takes type length n = true ↔ n ≤ length ∧ ∀ s, type.size = some s → n < s.toNat := by
  unfold takes
  cases type.size <;> simp

theorem size_ordered (ho : a.elements = .ordered items) : a.size = items.length := by
  unfold size
  rw [ho]

/-- In a row an element is found under its index and under nothing else. -/
theorem get?_ordered (ho : a.elements = .ordered items) :
    a.get? k = some v ↔ ∃ (i : Int64) (n : Nat), k = .int i ∧ i.toInt = n ∧ items[n]? = some v := by
  unfold get?
  rw [ho]
  cases k with
  | bool b => simp
  | string s => simp
  | int i =>
    simp only [Option.bind_eq_bind, Option.bind_eq_some_iff, position?_eq_some_iff]
    constructor
    · rintro ⟨n, hi, hv⟩
      exact ⟨i, n, rfl, hi, hv⟩
    · rintro ⟨j, n, hj, hi, hv⟩
      cases hj
      exact ⟨n, hi, hv⟩

theorem get?_index (ho : a.elements = .ordered items) {i : Int64} (hi : i.toInt = n) : a.get? (.int i) = items[n]? := by
  unfold get?
  rw [ho]
  simp only
  rw [position?_eq_some_iff.2 hi]
  rfl

/-- A row with an element put at one of its indices or behind its end. -/
theorem getElem?_put (h : n ≤ items.length) (m : Nat) :
    (if n = items.length then items ++ [v] else items.set n v)[m]? = if m = n then some v else items[m]? := by
  split
  · rename_i hend
    subst hend
    by_cases hm : m = items.length
    · rw [if_pos hm, hm, List.getElem?_concat_length]
    · rw [if_neg hm]
      by_cases hlt : m < items.length
      · rw [List.getElem?_append_left hlt]
      · have hbehind : items.length < m := by omega
        rw [List.getElem?_eq_none (by rw [List.length_append, List.length_singleton]; omega),
          List.getElem?_eq_none (by omega)]
  · rename_i hend
    have hlt : n < items.length := by omega
    by_cases hm : m = n
    · rw [if_pos hm, hm, List.getElem?_set_self hlt]
    · rw [if_neg hm, List.getElem?_set_ne (Ne.symm hm)]

theorem length_put (h : n ≤ items.length) :
    (if n = items.length then items ++ [v] else items.set n v).length =
      if items[n]?.isNone then items.length + 1 else items.length := by
  split
  · rename_i hend
    rw [List.getElem?_eq_none (Nat.le_of_eq hend.symm), List.length_append]
    rfl
  · rename_i hend
    rw [List.getElem?_eq_getElem (by omega), List.length_set]
    rfl

/-! ## Stores -/

/-- What is found behind a store, and how many elements there are. -/
theorem found_after_insert (hb : a.Built) (hs : a.insert k v = .ok a') :
    a'.get? k = some v ∧ (∀ l, l ≠ k → a'.get? l = a.get? l) ∧
      a'.size = if (a.get? k).isNone then a.size + 1 else a.size := by
  rcases insert_cases hs with ⟨entries, he, rfl⟩ | ⟨items, i, n, he, rfl, hi, hroom, rfl⟩
  · refine ⟨?_, fun l hl => ?_, ?_⟩
    · rw [get?_keyed rfl, Assoc.find?_insert_self]
    · rw [get?_keyed rfl, get?_keyed he, Assoc.find?_insert_of_ne hl]
    · rw [get?_keyed he]
      unfold size
      rw [he]
      exact Assoc.length_insert (hb.ascending he) k v
  · have hn : n ≤ items.length := (takes_iff.1 hroom).1
    have hi : i.toInt = n := position?_eq_some_iff.1 hi
    refine ⟨?_, fun l hl => ?_, ?_⟩
    · rw [get?_index rfl hi, getElem?_put hn, if_pos rfl]
    · refine Option.ext fun w => ?_
      rw [get?_ordered rfl, get?_ordered he]
      refine exists_congr fun j => exists_congr fun m => and_congr_right fun hj => and_congr_right fun hm => ?_
      -- another key is another index
      have hne : m ≠ n := by
        rintro rfl
        exact hl (hj.trans (congrArg Key.int (Int64.toInt_inj.1 (hm.trans hi.symm))))
      rw [getElem?_put hn, if_neg hne]
    · rw [get?_index he hi, size_ordered rfl, size_ordered he]
      exact length_put hn

/-- Why a row refuses to store under a key, and what it says. -/
inductive Refusal (a : Aggregate) : Key → TypeError → Prop
  | noIndex {k : Key} (h : ∀ i, k ≠ .int i) : Refusal a k (.mismatch a.type.index.text k.toValue.type.text)
  | negative {i : Int64} (h : i.toInt < 0) : Refusal a (.int i) (.outOfBounds a.type.text i)
  | gap {i : Int64} (h : a.size < i.toInt) : Refusal a (.int i) (.outOfBounds a.type.text i)
  | full {i : Int64} {s : UInt64} (hs : a.type.size = some s) (h : s.toNat ≤ i.toInt) :
    Refusal a (.int i) (.outOfBounds a.type.text i)

theorem insert_error_iff (ho : a.elements = .ordered items) {e : TypeError} :
    a.insert k v = .error e ↔ a.Refusal k e := by
  unfold insert
  rw [ho]
  cases k with
  | bool b =>
    constructor
    · rintro ⟨⟩
      exact .noIndex nofun
    · rintro ⟨⟩
      rfl
  | string s =>
    constructor
    · rintro ⟨⟩
      exact .noIndex nofun
    · rintro ⟨⟩
      rfl
  | int i =>
    simp only
    cases hp : (position? i).filter (takes a.type items.length) with
    | some n =>
      rw [Option.filter_eq_some_iff, position?_eq_some_iff, takes_iff] at hp
      obtain ⟨hi, hend, hroom⟩ := hp
      constructor
      · nofun
      · intro hr
        cases hr with
        | noIndex h => exact absurd rfl (h i)
        | negative h => omega
        | gap h =>
          rw [size_ordered ho] at h
          omega
        | full hs h =>
          have hlt := hroom _ hs
          omega
    | none =>
      constructor
      · rintro ⟨⟩
        rw [Option.filter_eq_none_iff] at hp
        cases hi : position? i with
        | none => exact .negative (position?_eq_none_iff.1 hi)
        | some n =>
          have hrefused := hp n hi
          have hi : i.toInt = n := position?_eq_some_iff.1 hi
          rw [takes_iff, not_and_or] at hrefused
          rcases hrefused with hend | hroom
          · refine .gap ?_
            rw [size_ordered ho]
            omega
          · push Not at hroom
            obtain ⟨s, hs, hle⟩ := hroom
            exact .full hs (by omega)
      · intro hr
        cases hr with
        | noIndex h => exact absurd rfl (h i)
        | negative h => rfl
        | gap h => rfl
        | full hs h => rfl

theorem exists_insert_keyed {entries : Assoc Key Value} (hk : a.elements = .keyed entries) (k : Key) (v : Value) :
    ∃ a', a.insert k v = .ok a' := by
  unfold insert
  rw [hk]
  exact ⟨_, rfl⟩

theorem isSome_get?_ordered (ho : a.elements = .ordered items) :
    (a.get? k).isSome ↔ ∃ i, k = .int i ∧ 0 ≤ i.toInt ∧ i.toInt < a.size := by
  rw [size_ordered ho, Option.isSome_iff_exists]
  constructor
  · rintro ⟨v, hv⟩
    obtain ⟨i, n, rfl, hi, hfound⟩ := (get?_ordered ho).1 hv
    have hlt : n < items.length := (List.getElem?_eq_some_iff.1 hfound).1
    exact ⟨i, rfl, by omega, by omega⟩
  · rintro ⟨i, rfl, hpos, hlt⟩
    have hi : i.toInt = i.toInt.toNat := by omega
    rw [get?_index ho hi]
    exact ⟨_, List.getElem?_eq_getElem (by omega)⟩

end

/-- Whatever was tried before, a store that succeeds changes what is found under its key and nothing else, and adds
an element exactly if there was none under it; one that fails leaves the aggregate as it was. A keyed aggregate takes
every key; an ordered one refuses the keys for which there is a reason and no others, and has an element under each
index below its size and under no other key. -/
theorem stores_like_map (o : Origin) (attempts : List (Key × Value)) (k : Key) (v : Value) :
    let a := o.after attempts
    (∀ a', a.insert k v = .ok a' → a.attempt (k, v) = a' ∧ a'.get? k = some v ∧ (∀ l, l ≠ k → a'.get? l = a.get? l) ∧
      a'.size = if (a.get? k).isNone then a.size + 1 else a.size) ∧
    (∀ e, a.insert k v = .error e → a.attempt (k, v) = a) ∧
    (a.elements.isOrdered = false → ∃ a', a.insert k v = .ok a') ∧
    (a.elements.isOrdered = true → (∀ e, a.insert k v = .error e ↔ a.Refusal k e) ∧
      ∀ l, (a.get? l).isSome ↔ ∃ i, l = .int i ∧ 0 ≤ i.toInt ∧ i.toInt < a.size) := by
  intro a
  have hb : a.Built := o.built_after attempts
  refine ⟨fun a' hs => ⟨?_, found_after_insert hb hs⟩, fun e he => ?_, fun hk => ?_, fun ho => ?_⟩
  · unfold attempt
    rw [hs]
  · unfold attempt
    rw [he]
  · cases he : a.elements with
    | keyed entries => exact exists_insert_keyed he k v
    | ordered items =>
      rw [he] at hk
      cases hk
  · cases he : a.elements with
    | ordered items => exact ⟨fun e => insert_error_iff he, fun l => isSome_get?_ordered he⟩
    | keyed entries =>
      rw [he] at ho
      cases ho

/-! ## Types and what they promise -/

/-- A row never has more elements than its type has places. -/
theorem Built.size_le {a : Aggregate} (hb : a.Built) (ho : a.elements.isOrdered = true) {s : UInt64}
    (hs : a.type.size = some s) : a.size ≤ s.toNat := by
  induction hb with
  | empty type =>
    have hempty : (Aggregate.empty type).size = 0 := by
      unfold size Aggregate.empty
      cases type.isOrdered <;> rfl
    omega
  | list data items => cases hs
  | map index data entries => cases ho
  | @insert a a' k v _ hstore ih =>
    have hbefore : a.size ≤ s.toNat :=
      ih ((insert_isOrdered hstore).symm.trans ho) ((congrArg AggregateType.size (insert_type hstore)).symm.trans hs)
    rcases insert_cases hstore with ⟨entries, he, rfl⟩ | ⟨items, i, n, he, rfl, -, hroom, rfl⟩
    · cases ho
    · obtain ⟨hend, hlt⟩ := takes_iff.1 hroom
      rw [size_ordered he] at hbefore
      rw [size_ordered rfl, length_put hend]
      split
      · rename_i hnone
        rw [Option.isNone_iff_eq_none, List.getElem?_eq_none_iff] at hnone
        have hplace := hlt s hs
        omega
      · exact hbefore

theorem isOrdered_empty (type : AggregateType) : (Aggregate.empty type).elements.isOrdered = type.isOrdered := by
  unfold Aggregate.empty
  cases type.isOrdered <;> rfl

/-- Only maps begin without a look at the type of their index. -/
theorem Origin.isOrdered_made_iff (o : Origin) :
    o.made.elements.isOrdered = o.made.type.isOrdered ↔ ¬ o.IsIntegerMap := by
  cases o with
  | empty type => exact iff_of_true (isOrdered_empty type) not_false
  | list data items => exact iff_of_true rfl not_false
  | map index data entries =>
    cases index with
    | int => exact iff_of_false Bool.false_ne_true fun h => h trivial
    | _ => exact iff_of_true rfl not_false

theorem Origin.IsIntegerMap.made {o : Origin} (h : o.IsIntegerMap) :
    o.made.elements.isOrdered = false ∧ o.made.type.isOrdered = true := by
  cases o with
  | empty type => cases h
  | list data items => cases h
  | map index data entries =>
    cases index with
    | int => exact ⟨rfl, rfl⟩
    | _ => cases h

/-- Entries that are stored by key one after the other are all there, the later of two with one key. -/
theorem foldl_attempt_keyed (type : AggregateType) (entries : Assoc Key Value) (attempts : List (Key × Value)) :
    attempts.foldl attempt ⟨type, .keyed entries⟩ =
      ⟨type, .keyed (attempts.foldl (fun m e => Assoc.insert e.1 e.2 m) entries)⟩ := by
  induction attempts generalizing entries with
  | nil => rfl
  | cons e rest ih => exact ih _

/-- A new aggregate that finds its elements by key comes to have one for each key, whatever size its type has. -/
theorem size_after_empty {type : AggregateType} (h : type.isOrdered = false) (attempts : List (Key × Value)) :
    ((Origin.empty type).after attempts).size = (attempts.map Prod.fst).dedup.length := by
  have hnew : Aggregate.empty type = ⟨type, .keyed []⟩ := by
    unfold Aggregate.empty
    rw [h]
    rfl
  have hall : (Origin.empty type).after attempts = ⟨type, .keyed (Assoc.ofList attempts)⟩ := by
    show attempts.foldl attempt (Aggregate.empty type) = _
    rw [hnew]
    exact foldl_attempt_keyed type [] attempts
  have hkeys : (Assoc.keys (Assoc.ofList attempts)).length = (attempts.map Prod.fst).dedup.length :=
    (Assoc.keys_ofList_perm attempts).length_eq
  rw [hall, ← hkeys]
  exact (List.length_map _).symm

/-- However an aggregate begins and whatever was tried to be stored in it, its elements are in order exactly if its
type is indexed by integers, unless it began as a map that is indexed by integers, and then they never are. Where its
type has a size, it has no more elements than that exactly if they are in order or no more different keys were
stored. -/
theorem fits_type_unless_keyed (o : Origin) (attempts : List (Key × Value)) :
    let a := o.after attempts
    (a.elements.isOrdered = a.type.isOrdered ↔ ¬ o.IsIntegerMap) ∧
    (o.IsIntegerMap → a.elements.isOrdered = false ∧ a.type.isOrdered = true) ∧
    ∀ s, a.type.size = some s →
      (a.size ≤ s.toNat ↔ a.elements.isOrdered = true ∨ (attempts.map Prod.fst).dedup.length ≤ s.toNat) := by
  intro a
  have hordered : a.elements.isOrdered = o.made.elements.isOrdered := o.isOrdered_after attempts
  have htype : a.type = o.made.type := o.type_after attempts
  refine ⟨?_, fun hmap => ?_, fun s hs => ?_⟩
  · rw [hordered, htype]
    exact o.isOrdered_made_iff
  · rw [hordered, htype]
    exact hmap.made
  · cases ho : a.elements.isOrdered with
    | true => exact iff_of_true ((o.built_after attempts).size_le ho hs) (.inl rfl)
    | false =>
      -- only the type of a new aggregate has a size
      rw [htype] at hs
      rw [hordered] at ho
      cases o with
      | list data items => cases hs
      | map index data entries => cases hs
      | empty type =>
        have hsize : a.size = (attempts.map Prod.fst).dedup.length :=
          size_after_empty ((isOrdered_empty type).symm.trans ho) attempts
        rw [hsize]
        simp

/-- A map that is declared to be indexed by integers. -/
def roster : Origin := .map .int .any []

/-- A new aggregate of one place that is indexed by strings. -/
def slot : Origin := .empty { index := .string, data := .any, size := some 1 }

/-- The map keeps its elements by key, and the one place takes two elements. -/
theorem keyed_past_promise :
    (roster.after []).type.isOrdered = true ∧ (roster.after []).elements.isOrdered = false ∧
      (slot.after [(.string "a", .void), (.string "b", .void)]).type.size = some 1 ∧
      (slot.after [(.string "a", .void), (.string "b", .void)]).size = 2 :=
  ⟨rfl, rfl, rfl, rfl⟩

end Aggregate

end Scripting
