/-
Values that are written as JSON trees and read again, and trees that are read as values and written
again. A record is an object whose member `__type__` names its type, so one reserved name decides what
an object is read as. A value that does not use that name itself comes back whole, up to what JSON does
not tell apart; a tree comes back whole but for members of that name which hold no text, as reading
takes the member out before it knows whether it names a type.
-/
import Scripting.Value.Json
import Scripting.Proofs.Value.Basic
import Scripting.Proofs.Number.Worth

namespace Scripting

/-! ## Numbers -/

theorem int64?_toInt (i : Int64) : int64? i.toInt = some i := by
  unfold int64?
  rw [if_pos ⟨Int64.minValue_le_toInt i, Int64.toInt_le i⟩, Int64.ofInt_toInt]

theorem toInt_of_int64? {i : Int} {x : Int64} (h : int64? i = some x) : x.toInt = i := by
  unfold int64? at h
  split at h
  · rename_i hi
    cases h
    have hlt : i < 2 ^ 63 := Int.lt_of_le_sub_one hi.2
    exact Int64.toInt_ofInt_of_le hi.1 hlt
  · cases h

namespace Value

/-! ## What comes back of a value -/

/-- Fields in ascending order of their names. -/
def sortFields (fields : List (String × Value)) : List (String × Value) :=
  fields.mergeSort fun a b => (compare a.1 b.1).isLE

mutual

/-- A value as JSON can tell it: a double that is not finite is void, a plural a list, a key its text,
and fields are in order. The declared types, which equality ignores, are those of any list or map. -/
def norm : Value → Value
  | .float x => if x.isFinite then .float x else .void
  | .record typeName fields => .record typeName (sortFields (normFields fields))
  | .ordered _ items => .list (normItems items)
  | .keyed _ entries => (Aggregate.map .string .any (normEntries entries)).toValue
  | .plural _ items => .list (normItems items)
  | v => v

def normItems : List Value → List Value
  | [] => []
  | v :: rest => v.norm :: normItems rest

def normFields : List (String × Value) → List (String × Value)
  | [] => []
  | (n, v) :: rest => (n, v.norm) :: normFields rest

def normEntries : List (Key × Value) → List (Key × Value)
  | [] => []
  | (k, v) :: rest => (.string k.text, v.norm) :: normEntries rest

end

/-- A value is no host object, and a record or map uses no name twice and not the one that is reserved. -/
def IsPlain : Value → Prop
  | .record _ fields => (fields.map Prod.fst).Nodup ∧ typeMember ∉ fields.map Prod.fst
  | .keyed _ entries => (entries.map fun e => e.1.text).Nodup ∧ typeMember ∉ entries.map fun e => e.1.text
  | .handle _ => False
  | _ => True

/-! ## Lists of values -/

theorem fieldsOfJson_eq (members : List (String × Json)) :
    fieldsOfJson members = (Assoc.erase typeMember members).map fun m => (m.1, ofJson m.2) := by
  induction members with
  | nil => rfl
  | cons m rest ih =>
    obtain ⟨n, j⟩ := m
    rw [fieldsOfJson, ih]
    by_cases hn : n = typeMember
    · simp [Assoc.erase, hn]
    · simp [Assoc.erase, hn, Ne.symm hn]

theorem itemsOfJson_eq (items : List Json) : itemsOfJson items = items.map ofJson := by
  induction items with
  | nil => rfl
  | cons j rest ih => exact congrArg (ofJson j :: ·) ih

theorem fieldsToJson_eq (fields : List (String × Value)) : fieldsToJson fields = fields.map fun f => (f.1, f.2.toJson) := by
  induction fields with
  | nil => rfl
  | cons f rest ih => exact congrArg ((f.1, f.2.toJson) :: ·) ih

theorem entriesToJson_eq (entries : List (Key × Value)) :
    entriesToJson entries = entries.map fun e => (e.1.text, e.2.toJson) := by
  induction entries with
  | nil => rfl
  | cons e rest ih => exact congrArg ((e.1.text, e.2.toJson) :: ·) ih

theorem keys_fieldsToJson (fields : List (String × Value)) : Assoc.keys (fieldsToJson fields) = fields.map Prod.fst := by
  rw [fieldsToJson_eq, Assoc.keys_map]
  rfl

theorem keys_entriesToJson (entries : List (Key × Value)) :
    Assoc.keys (entriesToJson entries) = entries.map fun e => e.1.text := by
  rw [entriesToJson_eq, Assoc.keys, List.map_map]
  rfl

theorem keys_normFields (fields : List (String × Value)) : Assoc.keys (normFields fields) = fields.map Prod.fst := by
  induction fields with
  | nil => rfl
  | cons f rest ih => exact congrArg (f.1 :: ·) ih

/-- Fields with different names are in order when they are stored one by one. -/
theorem sortFields_eq {fields : List (String × Value)} (h : (Assoc.keys fields).Nodup) :
    sortFields fields = Assoc.ofList fields := Assoc.mergeSort_eq_ofList h

/-! ## Values there and back -/

mutual

theorem ofJson_toJson : ∀ v : Value, v.All IsPlain → ofJson v.toJson = v.norm
  | .void, _ | .bool _, _ | .string _, _ => rfl
  | .int i, _ => by
    show ofNumber (.int i.toInt) = .int i
    rw [ofNumber, int64?_toInt]
    rfl
  | .float x, _ => by
    rw [toJson, norm]
    cases x.isFinite <;> rfl
  | .record typeName fields, h => by
    obtain ⟨⟨hn, hfree⟩, hfields⟩ := h
    have hkeys : (Assoc.keys (fieldsToJson fields)).Nodup := by rw [keys_fieldsToJson]; exact hn
    have hnorm : (Assoc.keys (normFields fields)).Nodup := by rw [keys_normFields]; exact hn
    have hother : typeMember ∉ Assoc.keys (Assoc.ofList (fieldsToJson fields)) := by
      rw [Assoc.mem_keys_ofList, keys_fieldsToJson]
      exact hfree
    have hrest : fieldsOfJson (Assoc.insert typeMember (.string typeName) (Assoc.ofList (fieldsToJson fields))) =
        Assoc.ofList (normFields fields) := by
      rw [fieldsOfJson_eq, Assoc.erase_insert_self, Assoc.erase_of_not_mem hother, ← Assoc.ofList_map hkeys,
        fieldsOfJson_fieldsToJson fields hfields]
    rw [toJson, ofJson, Assoc.find?_insert_self]
    simp only
    rw [hrest, Record.ofFields_of_nodup typeName (Assoc.ascending_ofList _).nodup, norm, sortFields_eq hnorm]
    rfl
  | .ordered _ items, h => by rw [toJson, ofJson, norm, itemsOfJson_itemsToJson items h.2]; rfl
  | .keyed _ entries, h => by
    obtain ⟨⟨hn, hfree⟩, hentries⟩ := h
    have hkeys : (Assoc.keys (entriesToJson entries)).Nodup := by rw [keys_entriesToJson]; exact hn
    have hother : typeMember ∉ Assoc.keys (Assoc.ofList (entriesToJson entries)) := by
      rw [Assoc.mem_keys_ofList, keys_entriesToJson]
      exact hfree
    -- the keys of the object are those of the map, only in another order
    have hperm : ((Assoc.ofList (entriesToJson entries)).map fun e => (Key.string e.1, ofJson e.2)).Perm
        (normEntries entries) := by
      rw [← entriesOfJson_entriesToJson entries hentries]
      exact (Assoc.ofList_perm hkeys).map _
    have hnodup : (Assoc.keys ((Assoc.ofList (entriesToJson entries)).map fun e => (Key.string e.1, ofJson e.2))).Nodup := by
      have hstrings := (Assoc.ascending_ofList (entriesToJson entries)).nodup.map (f := Key.string) fun a b h => by
        cases h; rfl
      unfold Assoc.keys at hstrings ⊢
      rw [List.map_map] at hstrings ⊢
      exact hstrings
    rw [toJson, ofJson, Assoc.find?_eq_none hother]
    simp only
    rw [fieldsOfJson_eq, Assoc.erase_of_not_mem hother, List.map_map, norm, Aggregate.map, Aggregate.map,
      ← Assoc.ofList_eq_of_perm hperm hnodup]
    rfl
  | .plural _ items, h => by rw [toJson, ofJson, norm, itemsOfJson_itemsToJson items h.2]; rfl

theorem itemsOfJson_itemsToJson : ∀ items : List Value, AllItems IsPlain items →
    itemsOfJson (itemsToJson items) = normItems items
  | [], _ => rfl
  | v :: rest, h => by
    rw [itemsToJson, itemsOfJson, normItems, ofJson_toJson v h.1, itemsOfJson_itemsToJson rest h.2]

theorem fieldsOfJson_fieldsToJson : ∀ fields : List (String × Value), AllFields IsPlain fields →
    ((fieldsToJson fields).map fun f => (f.1, ofJson f.2)) = normFields fields
  | [], _ => rfl
  | (n, v) :: rest, h => by
    rw [fieldsToJson, normFields, List.map_cons, ofJson_toJson v h.1, fieldsOfJson_fieldsToJson rest h.2]

theorem entriesOfJson_entriesToJson : ∀ entries : List (Key × Value), AllEntries IsPlain entries →
    ((entriesToJson entries).map fun e => (Key.string e.1, ofJson e.2)) = normEntries entries
  | [], _ => rfl
  | (k, v) :: rest, h => by
    rw [entriesToJson, normEntries, List.map_cons, ofJson_toJson v h.1, entriesOfJson_entriesToJson rest h.2]

end

mutual

theorem notNaN_norm : ∀ v : Value, v.norm.All NotNaN
  | .void | .bool _ | .int _ | .string _ | .handle _ => trivial
  | .float x => by
    rw [norm]
    split
    · rename_i h; exact Binary64.isNaN_of_isFinite h
    · trivial
  | .record _ fields => by
    refine ⟨trivial, allFields_iff.2 fun f hf => ?_⟩
    rw [sortFields, List.mem_mergeSort] at hf
    exact allFields_iff.1 (notNaN_normFields fields) f hf
  | .ordered _ items | .plural _ items => ⟨trivial, notNaN_normItems items⟩
  | .keyed _ entries =>
    ⟨trivial, allEntries_iff.2 fun e he =>
      allEntries_iff.1 (notNaN_normEntries entries) e (Assoc.mem_of_mem_ofList he)⟩

theorem notNaN_normItems : ∀ items : List Value, AllItems NotNaN (normItems items)
  | [] => trivial
  | v :: rest => ⟨notNaN_norm v, notNaN_normItems rest⟩

theorem notNaN_normFields : ∀ fields : List (String × Value), AllFields NotNaN (normFields fields)
  | [] => trivial
  | (_, v) :: rest => ⟨notNaN_norm v, notNaN_normFields rest⟩

theorem notNaN_normEntries : ∀ entries : List (Key × Value), AllEntries NotNaN (normEntries entries)
  | [] => trivial
  | (_, v) :: rest => ⟨notNaN_norm v, notNaN_normEntries rest⟩

end

/-- A value that is written and read again comes back as its normal form, which is also equal to it as
scripts compare values. -/
theorem norm_of_trip {v : Value} (h : v.All IsPlain) :
    ofJson v.toJson = v.norm ∧ (ofJson v.toJson).same v.norm = true := by
  rw [ofJson_toJson v h]
  exact ⟨rfl, same_self _ (notNaN_norm v)⟩

/-- A record with fields out of order, a map with keys of all sorts, a plural and doubles without end. -/
def luggage : Value :=
  .record "Box" [
    ("n", .int 7),
    ("m", .keyed (AggregateType.map .any .any)
      [(.bool true, .float ⟨0x7FF8000000000000⟩), (.int (-3), .void), (.string "x", .float ⟨0x3FF8000000000000⟩)]),
    ("a", .plural { element := .int } [.record "P" [("y", .bool false), ("x", .string "")]])]

theorem luggage_comes_back :
    ofJson luggage.toJson = .record "Box" [
      ("a", .list [.record "P" [("x", .string ""), ("y", .bool false)]]),
      ("m", (Aggregate.map .string .any
        [(.string "-3", .void), (.string "true", .void), (.string "x", .float ⟨0x3FF8000000000000⟩)]).toValue),
      ("n", .int 7)] := by
  have h : luggage.All IsPlain := by
    refine ⟨⟨by decide, by decide⟩, trivial, ⟨⟨by decide, by decide⟩, trivial, trivial, trivial, trivial⟩,
      ⟨trivial, ⟨⟨⟨by decide, by decide⟩, trivial, trivial, trivial⟩, trivial⟩⟩, trivial⟩
  rw [(norm_of_trip h).1]
  simp only [luggage, norm, normFields, normItems, normEntries]
  rw [sortFields_eq (by decide), sortFields_eq (by decide)]
  rfl

end Value

/-! ## Trees there and back -/

namespace Json

section

variable (p : Json → Prop)

mutual

/-- Something holds of a tree and of every tree inside of it. -/
def All : Json → Prop
  | .array items => p (.array items) ∧ AllItems items
  | .object members => p (.object members) ∧ AllMembers members
  | j => p j

def AllItems : List Json → Prop
  | [] => True
  | j :: rest => All j ∧ AllItems rest

def AllMembers : List (String × Json) → Prop
  | [] => True
  | (_, j) :: rest => All j ∧ AllMembers rest

end

end

section

variable {p : Json → Prop}

theorem allItems_iff {items : List Json} : AllItems p items ↔ ∀ j ∈ items, j.All p := by
  induction items with
  | nil => simp [AllItems]
  | cons j rest ih => simp [AllItems, ih]

theorem allMembers_iff {members : List (String × Json)} : AllMembers p members ↔ ∀ m ∈ members, m.2.All p := by
  induction members with
  | nil => simp [AllMembers]
  | cons m rest ih => simp [AllMembers, ih]

variable {q r : Json → Prop}

mutual

/-- What two properties imply holds all over a tree that has both all over. -/
theorem All.imp (h : ∀ j, p j → q j → r j) : ∀ {j : Json}, j.All p → j.All q → j.All r
  | .null, hp, hq | .bool _, hp, hq | .number _, hp, hq | .string _, hp, hq => h _ hp hq
  | .array _, hp, hq => ⟨h _ hp.1 hq.1, AllItems.imp h hp.2 hq.2⟩
  | .object _, hp, hq => ⟨h _ hp.1 hq.1, AllMembers.imp h hp.2 hq.2⟩

theorem AllItems.imp (h : ∀ j, p j → q j → r j) : ∀ {items : List Json},
    AllItems p items → AllItems q items → AllItems r items
  | [], _, _ => trivial
  | _ :: _, hp, hq => ⟨All.imp h hp.1 hq.1, AllItems.imp h hp.2 hq.2⟩

theorem AllMembers.imp (h : ∀ j, p j → q j → r j) : ∀ {members : List (String × Json)},
    AllMembers p members → AllMembers q members → AllMembers r members
  | [], _, _ => trivial
  | (_, _) :: _, hp, hq => ⟨All.imp h hp.1 hq.1, AllMembers.imp h hp.2 hq.2⟩

end

end

/-- The rational that a number is. -/
def Number.worth : Number → ℚ
  | .int i => i
  | .float x => x.worth

/-- An integer has 64 bits, a double is finite, and an object has its members in order, each once. -/
def IsRegular : Json → Prop
  | .number (.int i) => (int64? i).isSome = true
  | .number (.float x) => x.isFinite = true
  | .object members => Assoc.Ascending members
  | _ => True

/-- Whether a member is read: under the name that is reserved for types only a text is. -/
def isRead (m : String × Json) : Bool :=
  m.1 != Value.typeMember || m.2 matches .string _

/-- All members of an object are read. -/
def NamesType : Json → Prop
  | .object members => ∀ m ∈ members, isRead m = true
  | _ => True

mutual

/-- A tree without the members that are not read. -/
def pruned : Json → Json
  | .array items => .array (prunedItems items)
  | .object members => .object (prunedMembers members)
  | j => j

def prunedItems : List Json → List Json
  | [] => []
  | j :: rest => j.pruned :: prunedItems rest

def prunedMembers : List (String × Json) → List (String × Json)
  | [] => []
  | m :: rest => if isRead m then (m.1, m.2.pruned) :: prunedMembers rest else prunedMembers rest

end

theorem prunedMembers_eq (members : List (String × Json)) :
    prunedMembers members = (members.filter isRead).map fun m => (m.1, m.2.pruned) := by
  induction members with
  | nil => rfl
  | cons m rest ih =>
    rw [prunedMembers, ih, List.filter_cons]
    split <;> rfl

theorem length_prunedMembers_le (members : List (String × Json)) : (prunedMembers members).length ≤ members.length := by
  rw [prunedMembers_eq, List.length_map]
  exact List.length_filter_le _ _

mutual

/-- A tree is all read where every member of the reserved name holds a text. -/
theorem pruned_eq_self_iff : ∀ j : Json, j.pruned = j ↔ j.All NamesType
  | .null | .bool _ | .number _ | .string _ => by simp [pruned, All, NamesType]
  | .array items => by
    rw [pruned, All, Json.array.injEq, prunedItems_eq_self_iff items]
    exact (and_iff_right trivial).symm
  | .object members => by
    rw [pruned, All, Json.object.injEq, prunedMembers_eq_self_iff members]
    rfl

theorem prunedItems_eq_self_iff : ∀ items : List Json, prunedItems items = items ↔ AllItems NamesType items
  | [] => by simp [prunedItems, AllItems]
  | j :: rest => by
    rw [prunedItems, AllItems, List.cons.injEq, pruned_eq_self_iff j, prunedItems_eq_self_iff rest]

theorem prunedMembers_eq_self_iff : ∀ members : List (String × Json), prunedMembers members = members ↔
    (∀ m ∈ members, isRead m = true) ∧ AllMembers NamesType members
  | [] => by simp [prunedMembers, AllMembers]
  | (n, j) :: rest => by
    rw [prunedMembers, AllMembers, List.forall_mem_cons]
    split
    · rename_i hread
      rw [List.cons.injEq, Prod.mk.injEq, pruned_eq_self_iff j, prunedMembers_eq_self_iff rest]
      tauto
    · rename_i hread
      constructor
      · -- a list that lost a member is shorter
        intro h
        have hle := length_prunedMembers_le rest
        rw [h, List.length_cons] at hle
        omega
      · exact fun h => absurd h.1.1 hread

end

/-- Where the reserved name holds a text, all members are read. -/
theorem isRead_of_named {members : List (String × Json)} (ha : Assoc.Ascending members) {typeName : String}
    (hf : Assoc.find? Value.typeMember members = some (.string typeName)) : members.filter isRead = members := by
  refine List.filter_eq_self.2 fun m hm => ?_
  by_cases hn : m.1 = Value.typeMember
  · have hv : Assoc.find? m.1 members = some m.2 := Assoc.find?_of_mem ha hm
    rw [hn, hf, Option.some.injEq] at hv
    simp [isRead, ← hv]
  · simp [isRead, hn]

/-- Where it does not, all are read but the member of that name. -/
theorem isRead_of_unnamed {members : List (String × Json)} (ha : Assoc.Ascending members)
    (hf : ∀ typeName, Assoc.find? Value.typeMember members ≠ some (.string typeName)) :
    members.filter isRead = Assoc.erase Value.typeMember members := by
  refine List.filter_congr fun m hm => ?_
  by_cases hn : m.1 = Value.typeMember
  · have hv : Assoc.find? m.1 members = some m.2 := Assoc.find?_of_mem ha hm
    rw [hn] at hv
    obtain ⟨n, j⟩ := m
    cases j with
    | string typeName => exact absurd hv (hf typeName)
    | _ => simp_all [isRead]
  · have hread : isRead m = true := by simp [isRead, hn]
    have hkept : (compare Value.typeMember m.1 != .eq) = true := by simp [Ne.symm hn]
    rw [hread, hkept]

end Json

namespace Value

/-- A map from texts in order has its entries in that order. -/
theorem map_of_ascending {fields : List (String × Value)} (h : Assoc.Ascending fields) :
    (Aggregate.map .string .any (fields.map fun f => (.string f.1, f.2))).toValue =
      .keyed (AggregateType.map .string .any) (fields.map fun f => (.string f.1, f.2)) := by
  have hkeys : Assoc.Ascending (fields.map fun f => (Key.string f.1, f.2)) := by
    unfold Assoc.Ascending Assoc.keys at h ⊢
    rw [List.pairwise_map] at h
    rw [List.map_map, List.pairwise_map]
    exact h
  rw [Aggregate.map, Assoc.ofList_of_ascending hkeys]
  rfl

/-- A map from the members of an object is written as those members. -/
theorem toJson_map {fields : List (String × Value)} (h : Assoc.Ascending fields) :
    (Aggregate.map .string .any (fields.map fun f => (.string f.1, f.2))).toValue.toJson = .object (fieldsToJson fields) := by
  have hfields : entriesToJson (fields.map fun f => (Key.string f.1, f.2)) = fieldsToJson fields := by
    rw [entriesToJson_eq, fieldsToJson_eq, List.map_map]
    rfl
  rw [map_of_ascending h, toJson, hfields, fieldsToJson_eq, Assoc.ofList_of_ascending ((Assoc.ascending_map toJson).2 h)]

/-- A record whose fields are the members of an object but one is written as those members and that one. -/
theorem toJson_record {members : List (String × Json)} (h : Assoc.Ascending members) {typeName : String}
    (hm : (typeMember, .string typeName) ∈ members) {fields : List (String × Value)}
    (hf : fieldsToJson fields = Assoc.erase typeMember members) :
    (Record.ofFields typeName fields).toValue.toJson = .object members := by
  have hnames : (fields.map Prod.fst).Nodup := by
    rw [← keys_fieldsToJson, hf]
    exact (Assoc.ascending_erase h typeMember).nodup
  rw [Record.ofFields_of_nodup typeName hnames, Record.toValue, toJson, hf,
    Assoc.ofList_of_ascending (Assoc.ascending_erase h typeMember), Assoc.insert_erase h hm]

mutual

theorem toJson_ofJson : ∀ j : Json, j.All Json.IsRegular → (ofJson j).toJson = j.pruned
  | .null, _ | .bool _, _ | .string _, _ => rfl
  | .number (.int i), h => by
    obtain ⟨x, hx⟩ := Option.isSome_iff_exists.1 h
    rw [ofJson, ofNumber, hx]
    show Json.int x.toInt = .number (.int i)
    rw [toInt_of_int64? hx]
    rfl
  | .number (.float x), h => by
    have hx : x.isFinite = true := h
    rw [ofJson, ofNumber, toJson, if_pos hx]
    rfl
  | .array items, h => by
    rw [ofJson, Json.pruned, ← itemsToJson_itemsOfJson items h.2]
    rfl
  | .object members, h => by
    have ha : Assoc.Ascending members := h.1
    have hrest : fieldsToJson (fieldsOfJson members) =
        (Assoc.erase typeMember members).map fun m => (m.1, m.2.pruned) := by
      rw [fieldsToJson_eq, fieldsOfJson_eq, List.map_map]
      refine List.map_congr_left fun m hm => congrArg (m.1, ·) ?_
      exact membersToJson_membersOfJson members h.2 m (Assoc.mem_erase.1 hm).1
    rw [ofJson, Json.pruned, Json.prunedMembers_eq]
    split
    · rename_i typeName hf
      rw [Json.isRead_of_named ha hf]
      refine toJson_record ((Assoc.ascending_map _).2 ha) ?_ (by rw [hrest, Assoc.erase_map])
      exact List.mem_map.2 ⟨_, Assoc.mem_of_find? hf, rfl⟩
    · rename_i hf
      rw [Json.isRead_of_unnamed ha hf, toJson_map, hrest]
      rw [fieldsOfJson_eq]
      exact (Assoc.ascending_map _).2 (Assoc.ascending_erase ha _)

theorem itemsToJson_itemsOfJson : ∀ items : List Json, Json.AllItems Json.IsRegular items →
    itemsToJson (itemsOfJson items) = Json.prunedItems items
  | [], _ => rfl
  | j :: rest, h => by
    rw [itemsOfJson, itemsToJson, Json.prunedItems, toJson_ofJson j h.1, itemsToJson_itemsOfJson rest h.2]

theorem membersToJson_membersOfJson : ∀ members : List (String × Json), Json.AllMembers Json.IsRegular members →
    ∀ m ∈ members, (ofJson m.2).toJson = m.2.pruned
  | [], _ => nofun
  | (_, j) :: rest, h =>
    List.forall_mem_cons.2 ⟨toJson_ofJson j h.1, membersToJson_membersOfJson rest h.2⟩

end

/-- A tree that is read and written again has lost the members of the reserved name that hold no text, at
every depth, and nothing else; so it comes back as it was exactly if it has none. -/
theorem pruned_of_trip {j : Json} (h : j.All Json.IsRegular) :
    (ofJson j).toJson = j.pruned ∧ ((ofJson j).toJson = j ↔ j.All Json.NamesType) := by
  rw [toJson_ofJson j h]
  exact ⟨rfl, Json.pruned_eq_self_iff j⟩

/-- An object whose member of the reserved name is a number. -/
def misnamed : Json := .object [("__type__", .int 5), ("id", .int 2)]

theorem misnamed_regular : misnamed.All Json.IsRegular :=
  ⟨by unfold Json.IsRegular Assoc.Ascending; decide, rfl, rfl, trivial⟩

theorem pruned_misnamed : misnamed.pruned = .object [("id", .int 2)] ∧ misnamed.pruned ≠ misnamed := by
  have hpruned : misnamed.pruned = .object [("id", .int 2)] := rfl
  refine ⟨hpruned, fun h => ?_⟩
  have hlength := congrArg List.length (Json.object.inj (hpruned.symm.trans h))
  simp at hlength

theorem misnamed_pruned : (ofJson misnamed).toJson = .object [("id", .int 2)] ∧ ¬ misnamed.All Json.NamesType := by
  obtain ⟨htrip, hsame⟩ := pruned_of_trip misnamed_regular
  refine ⟨htrip.trans pruned_misnamed.1, fun h => pruned_misnamed.2 ?_⟩
  rw [← htrip, hsame.2 h]

/-- Not every tree comes back as it was. -/
theorem not_all_come_back : ¬ ∀ j : Json, j.All Json.IsRegular → (ofJson j).toJson = j := by
  intro h
  have hback := h misnamed misnamed_regular
  rw [toJson_ofJson _ misnamed_regular] at hback
  exact pruned_misnamed.2 hback

end Value

end Scripting
