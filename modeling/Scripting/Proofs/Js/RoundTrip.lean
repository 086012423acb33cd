/-
Values that are handed to a script and taken back. Writing puts the tree of a value into a heap
(`Written`), assignments and deletions on wrappers leave it there (`Kept`), and reading gives the value
back (`ComesBack`); each of the three follows the value, node by node.
-/
import Scripting.Js.Evaluation
import Scripting.Proofs.Js.Initial
import Scripting.Proofs.Js.Reading

namespace Scripting.Js.Run

variable {answer : (d : Demand) → d.Answer} {ev : Evaluator} {shapes : Shapes}

/-! ## There -/

theorem written_list {items : List Scripting.Value} (hi : ∀ v ∈ items, (Exported.ofValue shapes v).firstSealed? = none →
    Written answer (.ofValue shapes v)) (h : (Exported.array (Exported.ofItems shapes items)).firstSealed? = none) :
    Written answer (.array (Exported.ofItems shapes items)) := by
  refine written_array fun e he => ?_
  have hsealed := Exported.firstSealedItem?_eq_none h e he
  rw [Exported.ofItems_eq_map] at he
  obtain ⟨v, hv, rfl⟩ := List.mem_map.1 he
  exact hi v hv hsealed

/-- A value that travels can be written if there is no host object inside. -/
theorem written_inherited (answer : (d : Demand) → d.Answer) : Value.Inherited shapes fun v =>
    (Exported.ofValue shapes v).firstSealed? = none → Written answer (.ofValue shapes v) where
  scalar v hv _ _ := by
    cases v with
    | void | bool | int | float | string => exact written_scalar rfl
    | _ => cases hv
  handle _ h := nomatch h
  shaped typeName fields hs _ := by
    rw [Exported.ofValue, if_pos hs]
    exact written_wrapped _
  record typeName fields hs hn ht hf h := by
    rw [Exported.ofValue, if_neg hs] at h ⊢
    refine written_object ?_ fun x hx => ?_
    · rw [Exported.ofFields_eq_map, List.map_append, List.map_map]
      refine List.nodup_append.2 ⟨hn, List.nodup_singleton _, fun a ha b hb => ?_⟩
      obtain rfl : b = Exported.typeMember := List.mem_singleton.1 hb
      rintro rfl
      exact ht ha
    · have hsealed := Exported.firstSealedMember?_eq_none h x.1 x.2 hx
      rw [Exported.ofFields_eq_map] at hx
      rcases List.mem_append.1 hx with hx | hx
      · obtain ⟨f, hfm, rfl⟩ := List.mem_map.1 hx
        exact hf f hfm hsealed
      · rw [List.mem_singleton.1 hx]
        exact written_scalar rfl
  ordered _ items hi h := written_list hi h
  keyed _ entries hn ht he h := by
    rw [Exported.ofValue] at h ⊢
    refine written_object ?_ fun x hx => ?_
    · refine (((List.mergeSort_perm _ _).map Prod.fst).nodup_iff).2 ?_
      rw [Exported.ofEntries_eq_map, List.map_map]
      exact hn
    · have hsealed := Exported.firstSealedMember?_eq_none h x.1 x.2 hx
      rw [Exported.sortMembers, List.mem_mergeSort, Exported.ofEntries_eq_map] at hx
      obtain ⟨e, hem, rfl⟩ := List.mem_map.1 hx
      exact he e hem hsealed
  plural _ items hi h := written_list hi h

/-! ## And back -/

section

variable {m : Machine} {bound : ObjectId}

theorem comesBack_list {items : List Scripting.Value} {n : Nat} (hi : ∀ v ∈ items, ∀ n,
    (Exported.ofValue shapes v).depth < n → ∀ j, Holds m.heap bound (.ofValue shapes v) j →
      ComesBack answer ev m shapes n v j)
    (hd : (Exported.array (Exported.ofItems shapes items)).depth < n + 1) {j : Value}
    (hh : Holds m.heap bound (.array (Exported.ofItems shapes items)) j) :
    ∃ ws, outcome answer (readWithin ev (n + 1) j) m = (.ok (.list ws), m) ∧ Value.ReturnsItems shapes items ws := by
  refine outcome_readArray hh fun v hv => hi v hv n ?_
  rw [Exported.ofItems_eq_map] at hd
  exact Nat.lt_of_lt_of_le (Exported.depth_item (List.mem_map_of_mem hv)) (Nat.le_of_lt_succ hd)

/-- A value whose tree stands in a heap comes back from there in as many steps as lead into it. -/
theorem comesBack_inherited (hready : m.heap.Ready) : Value.Inherited shapes fun v => ∀ n,
    (Exported.ofValue shapes v).depth < n → ∀ j, Holds m.heap bound (.ofValue shapes v) j →
      ComesBack answer ev m shapes n v j where
  scalar v hv ht
    | n + 1, _, j, hh => by
      cases v with
      | void | bool | int | float | string => cases hh with | scalar hv => exact comesBack_scalar ht hv
      | _ => cases hv
  handle _ _ _ _ hh := nomatch hh
  shaped typeName fields hs
    | n + 1, _, j, hh => by
      rw [Exported.ofValue, if_pos hs] at hh
      exact comesBack_wrapped hs hh
  record typeName fields hs hn ht hf
    | n + 1, hd, j, hh => by
      refine comesBack_record hready hs hn ht hh fun f hfm => hf f hfm n ?_
      rw [Exported.ofValue, if_neg hs, Exported.ofFields_eq_map] at hd
      have hmem := List.mem_append_left [(Exported.typeMember, Exported.scalar (.string typeName))]
        (List.mem_map_of_mem (f := fun f => (f.1, Exported.ofValue shapes f.2)) hfm)
      exact Nat.lt_of_lt_of_le (Exported.depth_member hmem) (Nat.le_of_lt_succ hd)
  ordered _ items hi
    | n + 1, hd, j, hh => by
      obtain ⟨ws, hws, hr⟩ := comesBack_list hi hd hh
      exact ⟨_, hws, ws, rfl, hr⟩
  keyed _ entries hn ht he
    | n + 1, hd, j, hh => by
      refine comesBack_keyed hready hn ht hh fun e hem => he e hem n ?_
      have hmem : (e.1.text, Exported.ofValue shapes e.2) ∈
          Exported.sortMembers (Exported.ofEntries shapes entries) := by
        rw [Exported.sortMembers, List.mem_mergeSort, Exported.ofEntries_eq_map]
        exact List.mem_map.2 ⟨e, hem, rfl⟩
      rw [Exported.ofValue] at hd
      exact Nat.lt_of_lt_of_le (Exported.depth_member hmem) (Nat.le_of_lt_succ hd)
  plural _ items hi
    | n + 1, hd, j, hh => by
      obtain ⟨ws, hws, hr⟩ := comesBack_list hi hd hh
      exact ⟨_, hws, ws, rfl, hr⟩

end

/-! ## What a script does to wrappers -/

section

variable {m m' : Machine} {id : ObjectId}

theorem kept_setNamed (hr : (m.heap.object id).isRecord = true) (name : String) (x : Value) :
    Heap.KeptAll m.heap (outcome answer (setNamed (.object id) name x) m).2.heap := by
  obtain ⟨r, hs⟩ := Object.isRecord_iff.1 hr
  have hcount : itemCount? (m.heap.object id) = none := by rw [itemCount?, hs]
  rw [setNamed, storeNamed, outcome_bind_ok outcome_heap, hcount]
  show Heap.KeptAll _ (outcome answer (heap >>= _) m).2.heap
  rw [outcome_bind_ok outcome_heap]
  split
  · exact .allocate _ _ _
  · exact .assign_record hr _ name x

/-- A change of a record that leaves it a record. -/
theorem kept_update {f : Object → Object} (hr : (m.heap.object id).isRecord = true)
    (hf : (f (m.heap.object id)).sort = (m.heap.object id).sort) :
    ∃ h', outcome answer (changeHeap fun h => h.update id f) m = (.ok (), m.withHeap h') ∧ Heap.KeptAll m.heap h' ∧
      (h'.object id).isRecord = true := by
  refine ⟨_, outcome_changeHeap _, .update_record hr hf, ?_⟩
  rw [Heap.isRecord_congr (Heap.sort_update hf id), hr]

/-- A record has no items that could be changed. -/
theorem kept_changeItems (hr : (m.heap.object id).isRecord = true) (f : Array (Option Value) → Array (Option Value)) :
    ∃ h', outcome answer (changeItems id f) m = (.ok (), m.withHeap h') ∧ Heap.KeptAll m.heap h' ∧
      (h'.object id).isRecord = true := by
  obtain ⟨r, hs⟩ := Object.isRecord_iff.1 hr
  refine kept_update hr ?_
  rw [hs]
  exact hs

theorem kept_removal (hr : (m.heap.object id).isRecord = true) (f : Array (Option Value) → Array (Option Value))
    (name : String) : ∃ h', outcome answer (do changeItems id f; changeHeap fun h => h.update id (·.remove name)) m =
      (.ok (), m.withHeap h') ∧ Heap.KeptAll m.heap h' := by
  obtain ⟨h', hitems, hk, hr'⟩ := kept_changeItems hr f
  exact ⟨_, (outcome_bind_ok hitems _).trans (outcome_changeHeap _), hk.trans (.update_record hr' rfl)⟩

theorem kept_deleteNamed (hr : (m.heap.object id).isRecord = true) (name : String) :
    Heap.KeptAll m.heap (outcome answer (deleteNamed (.object id) name) m).2.heap := by
  rw [deleteNamed, outcome_bind_ok outcome_heap]
  show Heap.KeptAll _ (outcome answer (if _ then _ else _) m).2.heap
  split
  · exact .allocate _ _ _
  · obtain ⟨h', hremove, hk⟩ : ∃ h', outcome answer (removeNamed id name) m = (.ok (), m.withHeap h') ∧
        Heap.KeptAll m.heap h' := kept_removal hr _ name
    rw [outcome_bind_ok hremove]
    exact hk

/-- What a script can do to the properties of the host's objects: assign them and delete them, under any
names and with any values, whether that throws or not. -/
inductive Edited (answer : (d : Demand) → d.Answer) (m : Machine) : Machine → Prop
  | refl : Edited answer m m
  | assign {m' : Machine} {id : ObjectId} (name : String) (x : Value) : Edited answer m m' →
      (m'.heap.object id).isRecord = true → Edited answer m (outcome answer (setNamed (.object id) name x) m').2
  | delete {m' : Machine} {id : ObjectId} (name : String) : Edited answer m m' →
      (m'.heap.object id).isRecord = true → Edited answer m (outcome answer (deleteNamed (.object id) name) m').2

theorem Edited.kept (he : Edited answer m m') : Heap.KeptAll m.heap m'.heap := by
  induction he with
  | refl => exact .refl _ _
  | assign name x _ hr ih => exact ih.trans (kept_setNamed hr name x)
  | delete name _ hr ih => exact ih.trans (kept_deleteNamed hr name)

end

/-! ## There and back -/

/-- A value that is exported, nested no deeper than 64 steps, can be written into a heap that is ready;
and whatever a script then does to the properties of wrappers, it is read as a value that may come back
for it. -/
theorem comes_back {m : Machine} (hready : m.heap.Ready) {name : String} {v : Scripting.Value} {e : Exported}
    (he : shapes.exported name v = .ok e) (hd : e.depth ≤ 64) (ht : v.Travels shapes) :
    ∃ j m', outcome answer (write e) m = (.ok j, m') ∧ ∀ m'', Edited answer m' m'' →
      ∃ w, outcome answer (read ev j) m'' = (.ok w, m'') ∧ v.Returns shapes w := by
  obtain ⟨rfl, hsealed⟩ : e = .ofValue shapes v ∧ (Exported.ofValue shapes v).firstSealed? = none := by
    unfold Shapes.exported at he
    simp only at he
    split at he
    · cases he
    · rename_i hs
      cases he
      exact ⟨rfl, hs⟩
  obtain ⟨j, h', hwrite, hk, hh⟩ := (written_inherited answer).of_travels v ht hsealed m hready
  refine ⟨j, _, hwrite, fun m'' hedits => ?_⟩
  have hkept := hedits.kept
  have hready' := (hready.keep hk fun _ _ => trivial).keep hkept fun _ _ => trivial
  have hheld := hh.keep (hkept.mono fun _ _ _ => trivial)
  exact (comesBack_inherited hready').of_travels v ht _ (Nat.lt_succ_of_le hd) j hheld

/-- A host that knows points and has nothing else to say. -/
def pointHost : (d : Demand) → d.Answer
  | .shapes => Shapes.register [] (({ name := "Point" } : Shape).accessor "x" "x")
  | .poll _ | .await .. | .currentThread => none
  | .request _ | .openStream _ => .error .interrupted
  | .send .. | .close .. | .isStopped _ => false
  | .channel _ | .post .. | .stop _ | .log _ | .yield => ()

/-- A point that holds a host object and an integer that no double is, in company. -/
def parcel : Scripting.Value :=
  .plural { element := .any }
    [.record "Point" [("x", .handle (.numbered 1 "Socket")), ("y", .int 9007199254740993)], .string "s"]

theorem eq_of_parcel_returns {w : Scripting.Value} (h : parcel.Returns (pointHost .shapes) w) :
    w = .list [.record "Point" [("x", .handle (.numbered 1 "Socket")), ("y", .int 9007199254740993)], .string "s"] := by
  obtain ⟨items, rfl, hitems⟩ := h
  match items, hitems with
  | [point, text], ⟨hpoint, htext, _⟩ =>
    have hshaped : Assoc.contains "Point" (pointHost .shapes) = true := rfl
    rw [Value.Returns, if_pos hshaped] at hpoint
    rcases htext with htext | ⟨q, hq, -⟩
    · rw [hpoint, htext]
    · cases hq

/-- In a fresh engine the point comes back as it was, whatever was done to its wrapper. -/
theorem parcel_comes_back : ∃ e, (pointHost .shapes).exported "send" parcel = .ok e ∧
    ∃ j m', outcome pointHost (write e) { heap := Heap.initial [] } = (.ok j, m') ∧ ∀ m'', Edited pointHost m' m'' →
      outcome pointHost (read (evaluator fuel) j) m'' = (.ok (.list
        [.record "Point" [("x", .handle (.numbered 1 "Socket")), ("y", .int 9007199254740993)], .string "s"]), m'') := by
  have he : (pointHost .shapes).exported "send" parcel = .ok (.ofValue (pointHost .shapes) parcel) := rfl
  have ht : parcel.Travels (pointHost .shapes) := ⟨.inl rfl, trivial, trivial⟩
  have hready : ({ heap := Heap.initial [] } : Machine).heap.Ready := Heap.initial_ready []
  obtain ⟨j, m', hwrite, hread⟩ := comes_back hready he (by decide) ht
  refine ⟨_, he, j, m', hwrite, fun m'' hedits => ?_⟩
  obtain ⟨w, hw, hreturns⟩ := hread m'' hedits
  rw [hw, eq_of_parcel_returns hreturns]

end Scripting.Js.Run
