/-
Aggregates as callers make them: new ones, lists and maps, with entries stored one after the other. A keyed
one holds its entries in the order of their keys, each key once, so an entry is there exactly if it is what
its key gives. Keys are told apart by their texts unless a string spells a key of another sort.
-/
import Scripting.Proofs.Value.Basic
import Std.Data.String.ToInt

namespace Scripting

/-! ## Keys and their texts -/

namespace Key

/-- Nothing stands in a numeral but digits, underscores and a minus. -/
theorem of_mem_isInt {s : String} (h : s.isInt = true) {c : Char} (hc : c ∈ s.toList) :
    c.isDigit = true ∨ c = '_' ∨ c = '-' := by
  have hnat {t : String} (ht : t.isNat = true) (hc : c ∈ t.toList) : c.isDigit = true ∨ c = '_' ∨ c = '-' := by
    obtain ⟨-, hall, -⟩ := String.isNat_iff.1 ht
    rcases hall c hc with hd | hu
    · exact .inl hd
    · exact .inr (.inl hu)
  rcases String.isInt_iff.1 h with h | ⟨t, rfl, ht⟩
  · exact hnat h hc
  · rw [String.toList_append, List.mem_append] at hc
    rcases hc with hc | hc
    · have hminus : c = '-' := by simpa using hc
      exact .inr (.inr hminus)
    · exact hnat ht hc

theorem text_bool_ne_text_int (b : Bool) (i : Int64) : text (.bool b) ≠ text (.int i) := by
  intro h
  have hint : (text (.int i)).isInt = true := by
    rw [text, Int.toString_eq_repr]
    exact Int.isInt_repr _
  rw [← h] at hint
  have hletter : 'e' ∈ (text (.bool b)).toList := by cases b <;> simp [text]
  exact absurd (of_mem_isInt hint hletter) (by decide)

/-- Two keys of one text are the same key, or one is a string that spells the other. -/
theorem text_eq_text {k k' : Key} (h : k.text = k'.text) : k = k' ∨ k = .string k'.text ∨ k' = .string k.text := by
  cases k with
  | string s => exact .inr (.inl (congrArg Key.string h))
  | bool b =>
    cases k' with
    | string s => exact .inr (.inr (congrArg Key.string h.symm))
    | bool b' =>
      left
      revert h
      cases b <;> cases b' <;> decide
    | int i => exact absurd h (text_bool_ne_text_int b i)
  | int i =>
    cases k' with
    | string s => exact .inr (.inr (congrArg Key.string h.symm))
    | bool b => exact absurd h.symm (text_bool_ne_text_int b i)
    | int i' =>
      left
      rw [text, text, Int.toString_eq_repr, Int.toString_eq_repr] at h
      exact congrArg Key.int (Int64.toInt_inj.1 (Int.repr_injective h))

end Key

namespace Aggregate

/-! ## Aggregates as they are made -/

/-- What callers come to: a new aggregate, a list or a map, with entries stored one after the other. -/
inductive Built : Aggregate → Prop
  | empty (type : AggregateType) : Built (empty type)
  | list (data : ValueType) (items : List Value) : Built (list data items)
  | map (index data : ValueType) (entries : List (Key × Value)) : Built (map index data entries)
  | insert {a a' : Aggregate} {k : Key} {v : Value} : Built a → a.insert k v = .ok a' → Built a'

section

variable {a a' : Aggregate} {k : Key} {v : Value} {entries : Assoc Key Value}

/-- What a store that succeeds does: a keyed aggregate takes it under any key, an ordered one at an index that it
has or at the next, with room for it. -/
theorem insert_cases (hs : a.insert k v = .ok a') :
    (∃ entries, a.elements = .keyed entries ∧ a' = { a with elements := .keyed (Assoc.insert k v entries) }) ∨
    ∃ items i n, a.elements = .ordered items ∧ k = .int i ∧ position? i = some n ∧
      takes a.type items.length n = true ∧
      a' = { a with elements := .ordered (if n = items.length then items ++ [v] else items.set n v) } := by
  unfold insert at hs
  split at hs
  · rename_i entries he
    cases hs
    exact .inl ⟨entries, he, rfl⟩
  · rename_i items i he
    split at hs
    · rename_i n hn
      cases hs
      rw [Option.filter_eq_some_iff] at hn
      exact .inr ⟨items, i, n, he, rfl, hn.1, hn.2, rfl⟩
    · cases hs
  · cases hs

theorem Built.ascending (hb : a.Built) (hk : a.elements = .keyed entries) : Assoc.Ascending entries := by
  induction hb generalizing entries with
  | empty type =>
    unfold Aggregate.empty at hk
    simp only at hk
    split at hk <;> cases hk
    exact Assoc.ascending_nil
  | list => cases hk
  | map index data es =>
    cases hk
    exact Assoc.ascending_ofList es
  | insert _ hs ih =>
    rcases insert_cases hs with ⟨before, he, rfl⟩ | ⟨items, i, n, -, -, -, -, rfl⟩
    · cases hk
      exact Assoc.ascending_insert (ih he) _ _
    · cases hk

theorem get?_keyed (hk : a.elements = .keyed entries) (k : Key) : a.get? k = Assoc.find? k entries := by
  unfold get?
  rw [hk]

end

end Aggregate

end Scripting
