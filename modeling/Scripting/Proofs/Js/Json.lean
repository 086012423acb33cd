/-
Plain data of a script and JSON trees with the same contents. The host reads the one from the heap of the
engine and the other from a document, by two functions that know nothing of each other; both must decide of
every object whether it is a record or a map, and both leave out the member by which they decide, whatever
it holds. `Spells` says which data has the contents of a tree: the values of its nodes, not the order of its
members and not the tags of its numbers, and that is also all in which the two results may differ.
-/
import Scripting.Proofs.Js.RoundTrip
import Scripting.Proofs.Value.Json

namespace Scripting

/-! ## Trees that a script can have -/

namespace Json

/-- An integer is one that doubles have, a double is finite, and an object has its members in order, each
once. -/
def IsPortable : Json → Prop
  | .number (.int i) => -2 ^ 53 ≤ i ∧ i ≤ 2 ^ 53
  | j => j.IsRegular

/-- The value of such a number is an integer of the host or a double, and has its worth. -/
theorem ofNumber_of_portable {n : Number} (h : IsPortable (.number n)) :
    ((∃ i, Value.ofNumber n = .int i ∧ -2 ^ 53 ≤ i.toInt ∧ i.toInt ≤ 2 ^ 53) ∨ ∃ x, Value.ofNumber n = .float x) ∧
      (Value.ofNumber n).rational? = some n.worth := by
  cases n with
  | int i =>
    have hi : -2 ^ 53 ≤ i ∧ i ≤ 2 ^ 53 := h
    have hlow : Int64.minValue.toInt ≤ i := by
      rw [show Int64.minValue.toInt = -2 ^ 63 from rfl]
      omega
    have hhigh : i ≤ Int64.maxValue.toInt := by
      rw [show Int64.maxValue.toInt = 2 ^ 63 - 1 from rfl]
      omega
    have hint : int64? i = some (Int64.ofInt i) := if_pos ⟨hlow, hhigh⟩
    have hback := toInt_of_int64? hint
    rw [Value.ofNumber, hint]
    refine ⟨.inl ⟨_, rfl, ?_⟩, ?_⟩
    · rw [hback]
      exact hi
    · show some ((Int64.ofInt i).toInt : ℚ) = _
      rw [hback]
      rfl
  | float x =>
    have hx : x.isFinite = true := h
    exact ⟨.inr ⟨x, rfl⟩, if_pos hx⟩

end Json

/-- A number may come back as any number of its worth. -/
theorem Value.returns_of_rational? {shapes : Shapes} {v w : Value} {q : ℚ} (hv : v.rational? = some q)
    (hw : w.rational? = some q) : v.Returns shapes w := by
  cases v with
  | int | float => exact .inr ⟨q, hv, hw⟩
  | _ => cases hv

namespace Exported

mutual

/-- The tree with the contents of a JSON tree. -/
def ofJson : Json → Exported
  | .null => .scalar .void
  | .bool b => .scalar (.bool b)
  | .number n => .scalar (Value.ofNumber n)
  | .string s => .scalar (.string s)
  | .array items => .array (ofJsonItems items)
  | .object members => .object (ofJsonMembers members)

def ofJsonItems : List Json → List Exported
  | [] => []
  | j :: rest => ofJson j :: ofJsonItems rest

def ofJsonMembers : List (String × Json) → List (String × Exported)
  | [] => []
  | (n, j) :: rest => (n, ofJson j) :: ofJsonMembers rest

end

theorem ofJsonItems_eq_map (items : List Json) : ofJsonItems items = items.map ofJson := by
  induction items with
  | nil => rfl
  | cons j rest ih => exact congrArg (ofJson j :: ·) ih

theorem ofJsonMembers_eq_map (members : List (String × Json)) :
    ofJsonMembers members = members.map fun m => (m.1, ofJson m.2) := by
  induction members with
  | nil => rfl
  | cons m rest ih => exact congrArg ((m.1, ofJson m.2) :: ·) ih

theorem depth_ofJson_item {items : List Json} {j : Json} (h : j ∈ items) :
    (ofJson j).depth < (ofJson (.array items)).depth := by
  rw [ofJson, ofJsonItems_eq_map]
  exact depth_item (List.mem_map_of_mem h)

theorem depth_ofJson_member {members : List (String × Json)} {m : String × Json} (h : m ∈ members) :
    (ofJson m.2).depth < (ofJson (.object members)).depth := by
  rw [ofJson, ofJsonMembers_eq_map]
  exact depth_member (List.mem_map.2 ⟨m, h, rfl⟩)

end Exported

namespace Js

/-! ## Data with the contents of a tree -/

/-- The rational that a number is, unless it is not finite. -/
def Number.rational? : Number → Option ℚ
  | .int i => some i.toInt
  | .float x => if x.isFinite then some x.worth else none

theorem Number.rational?_toValue (k : Number) : k.toValue.rational? = k.rational? := by
  cases k with
  | int i => rw [toValue, Value.rational?, Int32.toInt_toInt64, rational?]
  | float x => rfl

/-- A value of a script has the contents of a JSON tree. A number has the worth of the number, an array the
items in their order, and an object the members as values of its own, in any order. -/
inductive Spells (h : Heap) : Json → Value → Prop
  | null : Spells h .null .null
  | bool (b : Bool) : Spells h (.bool b) (.bool b)
  | number {n : Json.Number} {k : Number} : k.rational? = some n.worth → Spells h (.number n) (.number k)
  | string (s : String) : Spells h (.string s) (.string s)
  | array {items : List Json} {js : List Value} {id : ObjectId} : (h.object id).sort = .array (js.map some).toArray →
      js.length = items.length → (∀ j v, (j, v) ∈ items.zip js → Spells h j v) → Spells h (.array items) (.object id)
  | object {members : List (String × Json)} {values : String → Value} {id : ObjectId} :
      h.Shows id (members.map Prod.fst) values → (∀ n j, (n, j) ∈ members → Spells h j (values n)) →
      Spells h (.object members) (.object id)

/-- Every number that a script can have is written as one of its worth. -/
theorem ofScalar?_ofNumber {n : Json.Number} (h : Json.IsPortable (.number n)) :
    ∃ k : Number, ofScalar? (Value.ofNumber n) = some (.number k) ∧ (k.rational? = some n.worth) := by
  obtain ⟨hsort, hworth⟩ := Json.ofNumber_of_portable h
  rcases hsort with ⟨i, hi, hlow, hhigh⟩ | ⟨x, hx⟩
  · rw [hi] at hworth ⊢
    refine ⟨_, rfl, ?_⟩
    rw [← Number.rational?_toValue, Number.rational?_ofInt hlow hhigh]
    exact hworth
  · rw [hx] at hworth ⊢
    refine ⟨_, rfl, ?_⟩
    rw [← Number.rational?_toValue]
    rcases Number.toValue_ofBinary64 x with hsame | ⟨q, hq, hk⟩
    · rw [hsame]
      exact hworth
    · rw [hk, ← hq]
      exact hworth

namespace Run

variable {answer : (d : Demand) → d.Answer} {ev : Evaluator} {m : Machine}

mutual

theorem written_ofJson : ∀ j : Json, j.All Json.IsPortable → Written answer (.ofJson j)
  | .null, _ | .bool _, _ | .string _, _ => written_scalar rfl
  | .number _, h => by
    obtain ⟨k, hk, -⟩ := ofScalar?_ofNumber h
    exact written_scalar hk
  | .array items, h => written_array (written_ofJsonItems items h.2)
  | .object members, h => by
    have hordered : Assoc.Ascending members := h.1
    refine written_object ?_ (written_ofJsonMembers members h.2)
    rw [Exported.ofJsonMembers_eq_map, List.map_map]
    exact hordered.nodup

theorem written_ofJsonItems : ∀ items : List Json, Json.AllItems Json.IsPortable items →
    ∀ e ∈ Exported.ofJsonItems items, Written answer e
  | [], _ => nofun
  | j :: rest, h => List.forall_mem_cons.2 ⟨written_ofJson j h.1, written_ofJsonItems rest h.2⟩

theorem written_ofJsonMembers : ∀ members : List (String × Json), Json.AllMembers Json.IsPortable members →
    ∀ x ∈ Exported.ofJsonMembers members, Written answer x.2
  | [], _ => nofun
  | (_, j) :: rest, h => List.forall_mem_cons.2 ⟨written_ofJson j h.1, written_ofJsonMembers rest h.2⟩

end

/-- What was written for a tree has its contents. -/
theorem spells_of_holds {h : Heap} (hready : h.Ready) {bound : ObjectId} {e : Exported} {v : Value}
    (hh : Holds h bound e v) {j : Json} (he : e = .ofJson j) (hj : j.All Json.IsPortable) : Spells h j v := by
  induction hh generalizing j with
  | scalar hv =>
    cases j with
    | null => cases he; cases hv; exact .null
    | bool b => cases he; cases hv; exact .bool b
    | string s => cases he; cases hv; exact .string s
    | number n =>
      cases he
      obtain ⟨k, hk, hworth⟩ := ofScalar?_ofNumber hj
      cases hk.symm.trans hv
      exact .number hworth
    | _ => cases he
  | @array es js id _ _ hs hlen _ ih =>
    cases j with
    | array items =>
      rw [Exported.ofJson, Exported.ofJsonItems_eq_map] at he
      cases he
      refine .array hs (hlen.trans (List.length_map _)) fun j v hmem => ?_
      refine ih (.ofJson j) v ?_ rfl (Json.allItems_iff.1 hj.2 j (List.of_mem_zip hmem).1)
      rw [List.zip_map_left]
      exact List.mem_map.2 ⟨_, hmem, rfl⟩
    | _ => cases he
  | @object es values id _ _ ho _ ih =>
    cases j with
    | object members =>
      rw [Exported.ofJson, Exported.ofJsonMembers_eq_map] at he
      cases he
      have hshows := Heap.shows_holding hready ho
      rw [List.map_map] at hshows
      refine .object hshows fun n j hmem => ?_
      exact ih n (.ofJson j) (List.mem_map.2 ⟨_, hmem, rfl⟩) rfl (Json.allMembers_iff.1 hj.2 _ hmem)
    | _ => cases he
  | wrapped => cases j <;> cases he

/-! ## Reading it -/

theorem comesBack_array {items : List Json} {js : List Value} {id : ObjectId} {n : Nat}
    (hs : (m.heap.object id).sort = .array (js.map some).toArray) (hlen : js.length = items.length)
    (hc : ∀ j v, (j, v) ∈ items.zip js → ComesBack answer ev m [] n (Value.ofJson j) v) :
    ComesBack answer ev m [] (n + 1) (Value.ofJson (.array items)) (.object id) := by
  have hback : ∀ w v, (w, v) ∈ (items.map Value.ofJson).zip js → ComesBack answer ev m [] n w v := by
    intro w v hmem
    rw [List.zip_map_left] at hmem
    obtain ⟨x, hx, heq⟩ := List.mem_map.1 hmem
    cases heq
    exact hc x.1 x.2 hx
  obtain ⟨ws, hws, hreturns⟩ := comesBack_items (hlen.trans (List.length_map _).symm) hback
  refine ⟨_, outcome_readItems hs hws, ws, rfl, ?_⟩
  rw [Value.itemsOfJson_eq]
  exact hreturns

/-- The type that the members of an object tell: the text under the reserved name. -/
def toldType? (members : List (String × Json)) : Option String :=
  match Assoc.find? Value.typeMember members with
  | some (.string typeName) => some typeName
  | _ => none

theorem toldType?_eq_some {members : List (String × Json)} {typeName : String} :
    toldType? members = some typeName ↔ Assoc.find? Value.typeMember members = some (.string typeName) := by
  unfold toldType?
  split
  · rename_i t hf
    rw [hf]
    simp
  · rename_i hf
    exact ⟨fun h => (by cases h), fun h => absurd h (hf typeName)⟩

/-- Both functions make the same of members and the type that they tell. -/
theorem ofJson_object (members : List (String × Json)) :
    Value.ofJson (.object members) = ofMembers (toldType? members) (Value.fieldsOfJson members) := by
  rw [Value.ofJson, toldType?]
  rcases Assoc.find? Value.typeMember members with _ | told
  · rfl
  · cases told <;> rfl

/-- Both functions find the same type told. -/
theorem outcome_typeMember?_spelled {members : List (String × Json)} (ha : Assoc.Ascending members)
    {values : String → Value} {id : ObjectId} (hshows : m.heap.Shows id (members.map Prod.fst) values)
    (hm : ∀ n j, (n, j) ∈ members → Spells m.heap j (values n)) :
    outcome answer (typeMember? ev (.object id)) m = (.ok (toldType? members), m) := by
  refine outcome_typeMember? answer ev hshows _ ?_
  cases ht : toldType? members with
  | some t =>
    have hmem := Assoc.mem_of_find? (toldType?_eq_some.1 ht)
    have hspelled := hm _ _ hmem
    refine ⟨List.mem_map.2 ⟨_, hmem, rfl⟩, ?_⟩
    generalize hv : values Value.typeMember = v at hspelled
    cases hspelled
    exact hv
  | none =>
    intro hname t hvalue
    obtain ⟨⟨n, j⟩, hmem, rfl⟩ := List.mem_map.1 hname
    have hspelled := hm _ _ hmem
    rw [hvalue] at hspelled
    cases hspelled
    cases ht.symm.trans (toldType?_eq_some.2 (Assoc.find?_of_mem ha hmem))

/-- Members that are read under the names of others, in any order, make what may come back for those. -/
theorem returns_ofMembers (typeName : Option String) {fields : List (String × Scripting.Value)}
    (ha : Assoc.Ascending fields) {names : List String} (hperm : names.Perm (fields.map Prod.fst))
    {read : String → Scripting.Value} (hf : ∀ f ∈ fields, f.2.Returns [] (read f.1)) :
    (ofMembers typeName fields).Returns [] (ofMembers typeName (names.map fun name => (name, read name))) := by
  cases typeName with
  | some t =>
    have hrecord : ofMembers (some t) fields = .record t fields := by
      rw [ofMembers, Record.ofFields_of_nodup t ha.nodup, Record.toValue]
    have hbare : ¬ Assoc.contains t ([] : Shapes) = true := Bool.false_ne_true
    rw [hrecord]
    exact returns_ofMembers_record hbare ha.nodup hperm hf
  | none =>
    have htexts : (fields.map fun f => (Key.string f.1, f.2)).map (fun e => e.1.text) = fields.map Prod.fst := by
      rw [List.map_map]
      rfl
    have hmap : ofMembers none fields = .keyed (AggregateType.map .string .any) (fields.map fun f => (.string f.1, f.2)) :=
      Value.map_of_ascending ha
    rw [hmap]
    refine returns_ofMembers_keyed ?_ ?_ ?_
    · rw [htexts]
      exact ha.nodup
    · rw [htexts]
      exact hperm
    · intro e he
      obtain ⟨f, hmem, rfl⟩ := List.mem_map.1 he
      exact hf f hmem

theorem comesBack_object {members : List (String × Json)} (ha : Assoc.Ascending members) {values : String → Value}
    {id : ObjectId} (hshows : m.heap.Shows id (members.map Prod.fst) values)
    (hm : ∀ n j, (n, j) ∈ members → Spells m.heap j (values n)) {n : Nat}
    (hc : ∀ x ∈ members, ComesBack answer ev m [] n (Value.ofJson x.2) (values x.1)) :
    ComesBack answer ev m [] (n + 1) (Value.ofJson (.object members)) (.object id) := by
  obtain ⟨read, hread⟩ := exists_read Prod.fst (fun x => Value.ofJson x.2) hc
  obtain ⟨names, hperm, hout⟩ := outcome_readMembers n read hshows (outcome_typeMember?_spelled ha hshows hm) (by
    intro name hname _
    obtain ⟨x, hx, rfl⟩ := List.mem_map.1 hname
    exact (hread x hx).1)
  refine ⟨_, hout, ?_⟩
  have hfields := Value.fieldsOfJson_eq members
  have hordered : Assoc.Ascending (Value.fieldsOfJson members) := by
    rw [hfields]
    exact (Assoc.ascending_map _).2 (Assoc.ascending_erase ha _)
  rw [ofJson_object]
  refine returns_ofMembers _ hordered ?_ fun f hf => ?_
  · -- on both sides the member that tells the type is left out
    refine hperm.trans (.of_eq ?_)
    rw [hfields, List.map_map]
    exact (Assoc.keys_erase Value.typeMember members).symm
  · rw [hfields] at hf
    obtain ⟨x, hx, rfl⟩ := List.mem_map.1 hf
    exact (hread x (Assoc.mem_erase.1 hx).1).2

/-- Data that has the contents of a tree is read as the value of the tree, in as many steps as lead into it. -/
theorem comesBack_spelled {j : Json} {v : Value} (hv : Spells m.heap j v) (hj : j.All Json.IsPortable) {n : Nat}
    (hd : (Exported.ofJson j).depth ≤ n) : ComesBack answer ev m [] (n + 1) (Value.ofJson j) v := by
  induction hv generalizing n with
  | null => exact ⟨_, rfl, .inl rfl⟩
  | bool b => exact ⟨_, rfl, .inl rfl⟩
  | string s => exact ⟨_, rfl, .inl rfl⟩
  | @number i k hk =>
    refine ⟨k.toValue, ?_, ?_⟩
    · cases k <;> rfl
    · exact Value.returns_of_rational? (Json.ofNumber_of_portable hj).2 (k.rational?_toValue.trans hk)
  | @array items js id hs hlen _ ih =>
    refine comesBack_array hs hlen fun j v hmem => ?_
    have hitem := (List.of_mem_zip hmem).1
    have hless := Exported.depth_ofJson_item hitem
    obtain ⟨n, rfl⟩ : ∃ n', n = n' + 1 := ⟨n - 1, by omega⟩
    exact ih j v hmem (Json.allItems_iff.1 hj.2 j hitem) (by omega)
  | @object members values id hshows hm ih =>
    refine comesBack_object hj.1 hshows hm fun x hx => ?_
    have hless := Exported.depth_ofJson_member hx
    obtain ⟨n, rfl⟩ : ∃ n', n = n' + 1 := ⟨n - 1, by omega⟩
    exact ih x.1 x.2 hx (Json.allMembers_iff.1 hj.2 x hx) (by omega)

variable (answer ev) in
/-- A tree nested no deeper than 64 steps can be laid out as plain data in every heap that is ready; and all
plain data that has its contents, however it came into a heap, is read as the value that the tree is read
as, up to the tags of numbers and the order of fields. -/
theorem plain_data_read_as_json (hready : m.heap.Ready) {j : Json} (hj : j.All Json.IsPortable)
    (hd : (Exported.ofJson j).depth ≤ 64) :
    (∃ v m', outcome answer (write (.ofJson j)) m = (.ok v, m') ∧ Spells m'.heap j v) ∧
    ∀ m' v, Spells m'.heap j v →
      ∃ w, outcome answer (read ev v) m' = (.ok w, m') ∧ (Value.ofJson j).Returns [] w := by
  constructor
  · obtain ⟨v, h', hwrite, hk, hh⟩ := written_ofJson j hj m hready
    exact ⟨v, _, hwrite, spells_of_holds (hready.keep hk fun _ _ => trivial) hh rfl hj⟩
  · exact fun m' v hv => comesBack_spelled hv hj hd

/-- Objects whose member of the reserved name is a text, another scalar, null, an array and an object. -/
def pallet : Json :=
  .array [
    .object [("__type__", .string "Box"), ("n", .int 9007199254740992)],
    .object [("__type__", .int 5), ("a", .bool true)],
    .object [("__type__", .null)],
    .object [("__type__", .array [.string "Box"])],
    .object [("__type__", .object [("__type__", .string "Box")])]]

theorem pallet_read : ∃ v m', Spells m'.heap pallet v ∧
    ∃ w, outcome pointHost (read (evaluator fuel) v) m' = (.ok w, m') ∧
      (Scripting.Value.list [.record "Box" [("n", .int 9007199254740992)],
        (Aggregate.map .string .any [(.string "a", .bool true)]).toValue, (Aggregate.map .string .any []).toValue,
        (Aggregate.map .string .any []).toValue, (Aggregate.map .string .any []).toValue]).Returns [] w := by
  have hready : ({ heap := Heap.initial [] } : Machine).heap.Ready := Heap.initial_ready []
  have hportable : pallet.All Json.IsPortable := by
    simp only [pallet, Json.All, Json.AllItems, Json.AllMembers, Json.IsPortable, Json.IsRegular, Json.int,
      Assoc.Ascending, Assoc.keys]
    decide
  obtain ⟨⟨v, m', -, hv⟩, hread⟩ := plain_data_read_as_json pointHost (evaluator fuel) hready hportable
    (by decide)
  exact ⟨v, m', hv, hread m' v hv⟩

end Run

end Js

end Scripting
