/-
Maps as objects, for engines and as JSON. An object tells its members apart by texts, a map its entries by keys
of three sorts. Where no two keys have one text there is a member for each entry, and in whatever order the
entries of a map are gone through, at any depth of a value, the object is the same. Two keys of one text share a
name: the JSON object then has fewer members than the map has entries, and what is handed to an engine uses a
name twice.
-/
import Scripting.Proofs.Bridge.Json
import Scripting.Proofs.Value.Aggregate

namespace Scripting

namespace Value

/-! ## Maps in another order -/

/-- The texts of the keys of a map. -/
def texts (entries : List (Key × Value)) : List String := entries.map fun e => e.1.text

section

variable (shapes : Shapes)

mutual

/-- A value whose maps, at any depth, are gone through in other orders: each of those that have no two keys of
one text may be in any. A record that has a shape is handed out as it is. -/
def Rearranged : Value → Value → Prop
  | .record typeName fields, v' =>
    if Assoc.contains typeName shapes then v' = .record typeName fields
    else ∃ fields', v' = .record typeName fields' ∧ RearrangedFields fields fields'
  | .ordered type items, v' => ∃ items', v' = .ordered type items' ∧ RearrangedItems items items'
  | .keyed type entries, v' => ∃ inside entries', v' = .keyed type entries' ∧ RearrangedEntries entries inside ∧
    (entries' = inside ∨ (texts entries).Nodup ∧ inside.Perm entries')
  | .plural type items, v' => ∃ items', v' = .plural type items' ∧ RearrangedItems items items'
  | v, v' => v' = v
  termination_by structural v => v

def RearrangedItems : List Value → List Value → Prop
  | [], items' => items' = []
  | v :: rest, items' => ∃ v' rest', items' = v' :: rest' ∧ Rearranged v v' ∧ RearrangedItems rest rest'
  termination_by structural items => items

def RearrangedFields : List (String × Value) → List (String × Value) → Prop
  | [], fields' => fields' = []
  | (n, v) :: rest, fields' =>
    ∃ v' rest', fields' = (n, v') :: rest' ∧ Rearranged v v' ∧ RearrangedFields rest rest'
  termination_by structural fields => fields

def RearrangedEntries : List (Key × Value) → List (Key × Value) → Prop
  | [], entries' => entries' = []
  | (k, v) :: rest, entries' =>
    ∃ v' rest', entries' = (k, v') :: rest' ∧ Rearranged v v' ∧ RearrangedEntries rest rest'
  termination_by structural entries => entries

end

end

/-! ## Members in JSON -/

theorem ofList_entriesToJson_of_perm {entries entries' : List (Key × Value)} (hp : entries.Perm entries')
    (hn : (texts entries).Nodup) : Assoc.ofList (entriesToJson entries) = Assoc.ofList (entriesToJson entries') := by
  have hkeys : (Assoc.keys (entriesToJson entries)).Nodup := by
    rw [keys_entriesToJson]
    exact hn
  refine Assoc.ofList_eq_of_perm ?_ hkeys
  rw [entriesToJson_eq, entriesToJson_eq]
  exact hp.map _

theorem texts_of_rearranged {shapes : Shapes} {entries inside : List (Key × Value)}
    (h : RearrangedEntries shapes entries inside) : texts inside = texts entries := by
  induction entries generalizing inside with
  | nil =>
    cases h
    rfl
  | cons e rest ih =>
    obtain ⟨k, v⟩ := e
    obtain ⟨v', rest', rfl, -, h⟩ := h
    exact congrArg (k.text :: ·) (ih h)

mutual

/-- In whatever order the maps of a value are gone through, its JSON tree is the same. -/
theorem toJson_of_rearranged : ∀ {v v' : Value}, Rearranged [] v v' → v'.toJson = v.toJson
  | .void, _, h | .bool _, _, h | .int _, _, h | .float _, _, h | .string _, _, h | .handle _, _, h => by
    cases h
    rfl
  | .record typeName fields, _, h => by
    obtain ⟨fields', rfl, h⟩ := h
    rw [toJson, toJson, fieldsToJson_of_rearranged h]
  | .ordered _ items, _, h | .plural _ items, _, h => by
    obtain ⟨items', rfl, h⟩ := h
    rw [toJson, toJson, itemsToJson_of_rearranged h]
  | .keyed _ entries, _, h => by
    obtain ⟨inside, entries', rfl, hinside, h⟩ := h
    rw [toJson, toJson, ← entriesToJson_of_rearranged hinside]
    rcases h with rfl | ⟨hn, hp⟩
    · rfl
    · rw [← texts_of_rearranged hinside] at hn
      rw [ofList_entriesToJson_of_perm hp hn]
  termination_by structural v => v

theorem itemsToJson_of_rearranged : ∀ {items items' : List Value}, RearrangedItems [] items items' →
    itemsToJson items' = itemsToJson items
  | [], _, h => by
    cases h
    rfl
  | _ :: _, _, h => by
    obtain ⟨v', rest', rfl, hv, hrest⟩ := h
    rw [itemsToJson, itemsToJson, toJson_of_rearranged hv, itemsToJson_of_rearranged hrest]
  termination_by structural items => items

theorem fieldsToJson_of_rearranged : ∀ {fields fields' : List (String × Value)}, RearrangedFields [] fields fields' →
    fieldsToJson fields' = fieldsToJson fields
  | [], _, h => by
    cases h
    rfl
  | _ :: _, _, h => by
    obtain ⟨v', rest', rfl, hv, hrest⟩ := h
    rw [fieldsToJson, fieldsToJson, toJson_of_rearranged hv, fieldsToJson_of_rearranged hrest]
  termination_by structural fields => fields

theorem entriesToJson_of_rearranged : ∀ {entries entries' : List (Key × Value)},
    RearrangedEntries [] entries entries' → entriesToJson entries' = entriesToJson entries
  | [], _, h => by
    cases h
    rfl
  | _ :: _, _, h => by
    obtain ⟨v', rest', rfl, hv, hrest⟩ := h
    rw [entriesToJson, entriesToJson, toJson_of_rearranged hv, entriesToJson_of_rearranged hrest]
  termination_by structural entries => entries

end

end Value

namespace Exported

/-! ## Members in an engine -/

theorem sortMembers_perm (members : List (String × Exported)) : (sortMembers members).Perm members :=
  List.mergeSort_perm _ _

/-- Members with different names are in order when they are stored one by one. -/
theorem sortMembers_eq {members : List (String × Exported)} (h : (Assoc.keys members).Nodup) :
    sortMembers members = Assoc.ofList members := by
  rw [← Assoc.mergeSort_eq_ofList h]
  unfold sortMembers
  congr
  funext a b
  rw [show compare a.1 b.1 = compareOfLessAndEq a.1 b.1 from rfl, compareOfLessAndEq]
  by_cases hlt : a.1 < b.1
  · simp [hlt, String.lt_asymm hlt]
  · by_cases heq : a.1 = b.1
    · simp [heq]
    · have hgt : b.1 < a.1 := by
        by_contra h
        exact heq (String.le_antisymm h hlt)
      simp [hlt, heq, hgt]

variable {shapes : Shapes}

open Value

theorem keys_ofEntries (shapes : Shapes) (entries : List (Key × Value)) :
    Assoc.keys (ofEntries shapes entries) = texts entries := by
  rw [ofEntries_eq_map, Assoc.keys, List.map_map]
  rfl

theorem sortMembers_ofEntries_of_perm {entries entries' : List (Key × Value)} (hp : entries.Perm entries')
    (hn : (texts entries).Nodup) : sortMembers (ofEntries shapes entries) = sortMembers (ofEntries shapes entries') := by
  have hn' : (texts entries').Nodup := (hp.map _).nodup_iff.1 hn
  rw [← keys_ofEntries shapes] at hn hn'
  rw [sortMembers_eq hn, sortMembers_eq hn']
  refine Assoc.ofList_eq_of_perm ?_ hn
  rw [ofEntries_eq_map, ofEntries_eq_map]
  exact hp.map _

mutual

/-- In whatever order the maps of a value are gone through, an engine is handed the same. -/
theorem ofValue_of_rearranged : ∀ {v v' : Value}, Rearranged shapes v v' → ofValue shapes v' = ofValue shapes v
  | .void, _, h | .bool _, _, h | .int _, _, h | .float _, _, h | .string _, _, h | .handle _, _, h => by
    cases h
    rfl
  | .record typeName fields, _, h => by
    rw [Rearranged] at h
    split at h
    · rw [h]
    · rename_i hopen
      obtain ⟨fields', rfl, h⟩ := h
      rw [ofValue, ofValue, if_neg hopen, if_neg hopen, ofFields_of_rearranged h]
  | .ordered _ items, _, h | .plural _ items, _, h => by
    obtain ⟨items', rfl, h⟩ := h
    rw [ofValue, ofValue, ofItems_of_rearranged h]
  | .keyed _ entries, _, h => by
    obtain ⟨inside, entries', rfl, hinside, h⟩ := h
    rw [ofValue, ofValue, ← ofEntries_of_rearranged hinside]
    rcases h with rfl | ⟨hn, hp⟩
    · rfl
    · rw [← texts_of_rearranged hinside] at hn
      rw [sortMembers_ofEntries_of_perm hp hn]
  termination_by structural v => v

theorem ofItems_of_rearranged : ∀ {items items' : List Value}, RearrangedItems shapes items items' →
    ofItems shapes items' = ofItems shapes items
  | [], _, h => by
    cases h
    rfl
  | _ :: _, _, h => by
    obtain ⟨v', rest', rfl, hv, hrest⟩ := h
    rw [ofItems, ofItems, ofValue_of_rearranged hv, ofItems_of_rearranged hrest]
  termination_by structural items => items

theorem ofFields_of_rearranged : ∀ {fields fields' : List (String × Value)}, RearrangedFields shapes fields fields' →
    ofFields shapes fields' = ofFields shapes fields
  | [], _, h => by
    cases h
    rfl
  | _ :: _, _, h => by
    obtain ⟨v', rest', rfl, hv, hrest⟩ := h
    rw [ofFields, ofFields, ofValue_of_rearranged hv, ofFields_of_rearranged hrest]
  termination_by structural fields => fields

theorem ofEntries_of_rearranged : ∀ {entries entries' : List (Key × Value)},
    RearrangedEntries shapes entries entries' → ofEntries shapes entries' = ofEntries shapes entries
  | [], _, h => by
    cases h
    rfl
  | _ :: _, _, h => by
    obtain ⟨v', rest', rfl, hv, hrest⟩ := h
    rw [ofEntries, ofEntries, ofValue_of_rearranged hv, ofEntries_of_rearranged hrest]
  termination_by structural entries => entries

end

end Exported

namespace Value

/-! ## Texts of keys -/

/-- Different keys have one text exactly if one of them is a string that spells the other, which is no string. -/
theorem nodup_texts_iff {entries : Assoc Key Value} (h : (Assoc.keys entries).Nodup) :
    (texts entries).Nodup ↔ ∀ k ∈ Assoc.keys entries, k ≠ .string k.text → .string k.text ∉ Assoc.keys entries := by
  have htexts : texts entries = (Assoc.keys entries).map Key.text := by
    rw [texts, Assoc.keys, List.map_map]
    rfl
  rw [htexts, List.nodup_map_iff_inj_on h]
  constructor
  · intro hinj k hk hne hspelled
    exact hne (hinj k hk _ hspelled rfl)
  · intro hspelled k hk k' hk' htext
    rcases Key.text_eq_text htext with rfl | rfl | rfl
    · rfl
    · by_contra hne
      exact hspelled k' hk' (Ne.symm hne) hk
    · by_contra hne
      exact hspelled k hk hne hk'

end Value

namespace Aggregate

open Value Exported

variable {a : Aggregate} {entries : Assoc Key Value}

theorem toValue_keyed (hk : a.elements = .keyed entries) : a.toValue = .keyed a.type entries := by
  unfold toValue
  rw [hk]

theorem size_keyed (hk : a.elements = .keyed entries) : a.size = entries.length := by
  unfold size
  rw [hk]

/-- A keyed aggregate as JSON has a member for each entry exactly if its keys have different texts. -/
theorem toJson_members (hk : a.elements = .keyed entries) :
    ∃ members, a.toValue.toJson = .object members ∧ (Assoc.keys members).Nodup ∧
      (members.length = a.size ↔ (texts entries).Nodup) ∧
      ((texts entries).Nodup → members.Perm (entries.map fun e => (e.1.text, e.2.toJson))) := by
  refine ⟨Assoc.ofList (entriesToJson entries), ?_, (Assoc.ascending_ofList _).nodup, ?_, ?_⟩
  · rw [toValue_keyed hk, toJson]
  · have hlen : (entriesToJson entries).length = entries.length := by
      rw [entriesToJson_eq, List.length_map]
    rw [size_keyed hk, ← hlen, Assoc.length_ofList_iff, keys_entriesToJson]
    rfl
  · intro hn
    rw [← entriesToJson_eq]
    refine Assoc.ofList_perm ?_
    rw [keys_entriesToJson]
    exact hn

/-- What an engine is handed for a keyed aggregate has a member for each entry, and each a name of its own exactly
if the keys have different texts. A member is what its element is handed out as by itself. -/
theorem exported_members (hk : a.elements = .keyed entries) {shapes : Shapes} {method : String} {tree : Exported}
    (h : shapes.exported method a.toValue = .ok tree) :
    ∃ members, tree = .object members ∧ members.length = a.size ∧
      ((Assoc.keys members).Nodup ↔ (texts entries).Nodup) ∧
      members.Perm (entries.map fun e => (e.1.text, ofValue shapes e.2)) ∧
      ∀ e ∈ entries, shapes.exported method e.2 = .ok (ofValue shapes e.2) := by
  have hperm : (sortMembers (Exported.ofEntries shapes entries)).Perm (Exported.ofEntries shapes entries) := sortMembers_perm _
  have htree : ofValue shapes a.toValue = .object (sortMembers (Exported.ofEntries shapes entries)) := by
    rw [toValue_keyed hk, ofValue]
  unfold Shapes.exported at h
  simp only at h
  split at h
  · cases h
  · rename_i hopen
    cases h
    refine ⟨_, htree, ?_, ?_, ?_, ?_⟩
    · rw [hperm.length_eq, ofEntries_eq_map, List.length_map, size_keyed hk]
    · rw [← keys_ofEntries shapes]
      exact (hperm.map Prod.fst).nodup_iff
    · rw [← ofEntries_eq_map]
      exact hperm
    · rintro ⟨k, v⟩ he
      -- a host object in the element would stand in the whole
      have hmem : (k.text, ofValue shapes v) ∈ sortMembers (Exported.ofEntries shapes entries) := by
        rw [hperm.mem_iff, ofEntries_eq_map]
        exact List.mem_map.2 ⟨(k, v), he, rfl⟩
      rw [htree, firstSealed?] at hopen
      have hnone := firstSealedMember?_eq_none hopen _ _ hmem
      unfold Shapes.exported
      simp only [hnone]

/-- A keyed aggregate as callers make it, of keys of any sorts. As JSON it has a member for each entry, with what JSON
has for the element, and what an engine is handed has one with what it is handed for the element by itself; the
names are as many as the entries exactly if the keys have different texts, so that no string spells a key of another
sort. In whatever order such maps are gone through, the aggregate itself or any inside of it, both stay the same. -/
theorem one_member_an_entry (hb : a.Built) (hk : a.elements = .keyed entries) (shapes : Shapes) (method : String) :
    (∃ members, a.toValue.toJson = .object members ∧ (Assoc.keys members).Nodup ∧
      (members.length = a.size ↔ (texts entries).Nodup) ∧
      ((texts entries).Nodup → members.Perm (entries.map fun e => (e.1.text, e.2.toJson)))) ∧
    (∀ tree, shapes.exported method a.toValue = .ok tree → ∃ members, tree = .object members ∧
      members.length = a.size ∧ ((Assoc.keys members).Nodup ↔ (texts entries).Nodup) ∧
      members.Perm (entries.map fun e => (e.1.text, ofValue shapes e.2)) ∧
      ∀ e ∈ entries, shapes.exported method e.2 = .ok (ofValue shapes e.2)) ∧
    (∀ v, Rearranged [] a.toValue v → v.toJson = a.toValue.toJson) ∧
    (∀ v, Rearranged shapes a.toValue v → shapes.exported method v = shapes.exported method a.toValue) ∧
    ((texts entries).Nodup ↔ ∀ k, (a.get? k).isSome → k ≠ .string k.text → a.get? (.string k.text) = none) := by
  have hnodup : (Assoc.keys entries).Nodup := (hb.ascending hk).nodup
  have hfound (k : Key) : (a.get? k).isSome ↔ k ∈ Assoc.keys entries := by
    rw [get?_keyed hk, Option.isSome_iff_exists]
    constructor
    · rintro ⟨v, hv⟩
      exact List.mem_map_of_mem (f := Prod.fst) (Assoc.mem_of_find? hv)
    · intro hmem
      obtain ⟨⟨k', v⟩, he, rfl⟩ := List.mem_map.1 hmem
      exact ⟨v, Assoc.find?_of_mem_nodup hnodup he⟩
  refine ⟨toJson_members hk, fun tree h => exported_members hk h, ?_, ?_, ?_⟩
  · intro v hv
    exact toJson_of_rearranged hv
  · intro v hv
    unfold Shapes.exported
    rw [ofValue_of_rearranged hv]
  · rw [nodup_texts_iff hnodup]
    constructor
    · intro h k hhere hne
      have hnot := h k ((hfound k).1 hhere) hne
      rwa [← hfound, Option.not_isSome_iff_eq_none] at hnot
    · intro h k hmem hne
      rw [← hfound, Option.not_isSome_iff_eq_none]
      exact h k ((hfound k).2 hmem) hne

/-- A map of strings. -/
def labels : Aggregate := map .any .string [(.string "b", .string "blue"), (.string "a", .string "amber")]

/-- A map with keys of all sorts and another map inside, made by storing into another. -/
def tray : Aggregate :=
  ⟨AggregateType.map .any .any, .keyed [(.bool true, .int 1), (.int 20, .void), (.string "2", labels.toValue)]⟩

/-- The entries of the map and of the one inside are gone through backwards. -/
def trayBackwards : Value :=
  .keyed tray.type [
    (.string "2", .keyed labels.type [(.string "b", .string "blue"), (.string "a", .string "amber")]),
    (.int 20, .void), (.bool true, .int 1)]

theorem tray_built : tray.Built :=
  .insert (k := .int 20) (v := .void)
    (.map .any .any [(.string "2", labels.toValue), (.bool true, .int 1)]) rfl

theorem tray_backwards (shapes : Shapes) : Rearranged shapes tray.toValue trayBackwards := by
  have hlabels : Rearranged shapes labels.toValue
      (.keyed labels.type [(.string "b", .string "blue"), (.string "a", .string "amber")]) :=
    ⟨[(.string "a", .string "amber"), (.string "b", .string "blue")], _, rfl,
      ⟨_, _, rfl, rfl, _, _, rfl, rfl, rfl⟩, .inr ⟨by decide, .swap _ _ _⟩⟩
  exact ⟨[(.bool true, .int 1), (.int 20, .void), _], _, rfl,
    ⟨_, _, rfl, rfl, _, _, rfl, rfl, _, _, rfl, hlabels, rfl⟩, .inr ⟨by decide +kernel, (List.reverse_perm _).symm⟩⟩

theorem one_member_an_entry_of_tray :
    (∃ members, tray.toValue.toJson = .object members ∧ (Assoc.keys members).Nodup ∧ members.length = tray.size) ∧
      trayBackwards.toJson = tray.toValue.toJson ∧
      Shapes.exported [] "get" trayBackwards = Shapes.exported [] "get" tray.toValue := by
  obtain ⟨⟨members, hjson, hnames, hcount, -⟩, -, hsameJson, hsameExport, -⟩ :=
    one_member_an_entry tray_built rfl [] "get"
  exact ⟨⟨members, hjson, hnames, hcount.2 (by decide +kernel)⟩, hsameJson _ (tray_backwards []),
    hsameExport _ (tray_backwards [])⟩

/-- Two keys of one text. -/
def twins : Aggregate := map .any .any [(.int 1, .bool true), (.string "1", .bool false)]

/-- Of two entries whose keys have one text JSON keeps the one that is gone through last, and an engine is handed two
members of one name. -/
theorem twins_share_a_name : twins.Built ∧ twins.elements = .keyed [(.int 1, .bool true), (.string "1", .bool false)] ∧
    twins.size = 2 ∧ twins.toValue.toJson = .object [("1", .bool false)] ∧
    (Value.keyed twins.type [(.string "1", .bool false), (.int 1, .bool true)]).toJson = .object [("1", .bool true)] ∧
    Shapes.exported [] "get" twins.toValue =
      .ok (.object [("1", .scalar (.bool true)), ("1", .scalar (.bool false))]) := by
  refine ⟨.map _ _ _, rfl, rfl, rfl, rfl, ?_⟩
  have hsorted : sortMembers [("1", .scalar (.bool true)), ("1", .scalar (.bool false))] =
      [("1", .scalar (.bool true)), ("1", .scalar (.bool false))] := List.mergeSort_of_pairwise (by decide)
  have htree : ofValue [] twins.toValue = .object [("1", .scalar (.bool true)), ("1", .scalar (.bool false))] :=
    congrArg Exported.object hsorted
  unfold Shapes.exported
  rw [htree]
  rfl

end Aggregate

end Scripting
