/-
What changes of a heap leave alone. Objects are only added, and what is kept of the old ones is said in
`Kept`: all of them stay as they were but those of the host, of which only the record inside stays, so
that the assignments of a script to its wrappers are covered too.

A heap is `Ready` for values if nothing above a new object gets in the way of a name: no getter stands
there, and nothing under the name that tells types.
-/
import Scripting.Js.Property
import Scripting.Bridge.Basic
import Scripting.Proofs.Js.Outcome

namespace Scripting.Js

/-! ## Objects of a heap -/

namespace Heap

/-- The object with a number, if there is one. -/
def stored? (h : Heap) (id : ObjectId) : Option Object := h.objects.items[id]?

variable {h h' h'' : Heap} {id : ObjectId}

theorem object_eq (h : Heap) (id : ObjectId) : h.object id = (h.stored? id).getD {} :=
  Std.TreeMap.getD_eq_getD_getElem?

theorem object_of_stored {o : Object} (hs : h.stored? id = some o) : h.object id = o := by
  rw [object_eq, hs]
  rfl

theorem object_congr (hs : h'.stored? id = h.stored? id) : h'.object id = h.object id := by
  rw [object_eq, object_eq, hs]

theorem stored?_allocate (h : Heap) (o : Object) (id : ObjectId) :
    (h.allocate o).2.stored? id = if h.objects.size = id then some o else h.stored? id := by
  have hinsert : (h.allocate o).2.stored? id = (h.objects.items.insert h.objects.size o)[id]? := rfl
  rw [hinsert, Std.TreeMap.getElem?_insert]
  simp only [Std.LawfulEqCmp.compare_eq_iff_eq]
  rfl

theorem stored?_allocate_self (h : Heap) (o : Object) : (h.allocate o).2.stored? h.objects.size = some o := by
  rw [stored?_allocate, if_pos rfl]

theorem stored?_allocate_of_lt (o : Object) (hlt : id < h.objects.size) :
    (h.allocate o).2.stored? id = h.stored? id := by
  rw [stored?_allocate, if_neg (Nat.ne_of_gt hlt)]

theorem stored?_update (h : Heap) (id : ObjectId) (f : Object → Object) (id' : ObjectId) :
    (h.update id f).stored? id' = if id = id' then (h.stored? id).map f else h.stored? id' := by
  have hmodify : (h.update id f).stored? id' = (h.objects.items.modify id f)[id']? := rfl
  rw [hmodify, Std.TreeMap.getElem?_modify]
  simp only [Std.LawfulEqCmp.compare_eq_iff_eq]
  rfl

theorem stored?_update_self {o : Object} (hs : h.stored? id = some o) (f : Object → Object) :
    (h.update id f).stored? id = some (f o) := by
  rw [stored?_update, if_pos rfl, hs]
  rfl

theorem stored?_update_of_ne {id' : ObjectId} (hne : id ≠ id') (f : Object → Object) :
    (h.update id f).stored? id' = h.stored? id' := by
  rw [stored?_update, if_neg hne]

/-- A change of an object that leaves its sort leaves the sorts of all. -/
theorem sort_update {f : Object → Object} (hf : (f (h.object id)).sort = (h.object id).sort) (id' : ObjectId) :
    ((h.update id f).object id').sort = (h.object id').sort := by
  by_cases hid : id = id'
  · subst hid
    cases hs : h.stored? id with
    | none => rw [object_eq, object_eq, stored?_update, if_pos rfl, hs]; rfl
    | some o =>
      rw [object_of_stored hs] at hf ⊢
      rw [object_of_stored (stored?_update_self hs f), hf]
  · rw [object_congr (stored?_update_of_ne hid f)]

/-! ## What is kept -/

/-- Of the objects that a condition holds of, those of the host keep their records and the others stay
as they are. -/
structure Kept (p : ObjectId → Prop) (h h' : Heap) : Prop where
  realm : h'.realm = h.realm
  size : h.objects.size ≤ h'.objects.size
  sort : ∀ id, p id → id < h.objects.size → (h'.object id).sort = (h.object id).sort
  stored : ∀ id, p id → id < h.objects.size → (h.object id).isRecord = false → h'.stored? id = h.stored? id

/-- All objects are kept. -/
abbrev KeptAll (h h' : Heap) : Prop := Kept (fun _ => True) h h'

theorem isRecord_congr (hs : (h'.object id).sort = (h.object id).sort) :
    (h'.object id).isRecord = (h.object id).isRecord := by
  unfold Object.isRecord
  rw [hs]

namespace Kept

variable {p q : ObjectId → Prop}

theorem refl (p : ObjectId → Prop) (h : Heap) : Kept p h h := ⟨rfl, Nat.le_refl _, fun _ _ _ => rfl, fun _ _ _ _ => rfl⟩

theorem trans (hk : Kept p h h') (hk' : Kept p h' h'') : Kept p h h'' where
  realm := hk'.realm.trans hk.realm
  size := Nat.le_trans hk.size hk'.size
  sort id hp hlt := (hk'.sort id hp (Nat.lt_of_lt_of_le hlt hk.size)).trans (hk.sort id hp hlt)
  stored id hp hlt hr := by
    have hr' : (h'.object id).isRecord = false := by rw [isRecord_congr (hk.sort id hp hlt), hr]
    exact (hk'.stored id hp (Nat.lt_of_lt_of_le hlt hk.size) hr').trans (hk.stored id hp hlt hr)

theorem mono (hk : Kept q h h') (hpq : ∀ id, p id → id < h.objects.size → q id) : Kept p h h' where
  realm := hk.realm
  size := hk.size
  sort id hp hlt := hk.sort id (hpq id hp hlt) hlt
  stored id hp hlt hr := hk.stored id (hpq id hp hlt) hlt hr

theorem allocate (p : ObjectId → Prop) (h : Heap) (o : Object) : Kept p h (h.allocate o).2 where
  realm := rfl
  size := Nat.le_succ _
  sort _ _ hlt := by rw [object_congr (stored?_allocate_of_lt o hlt)]
  stored _ _ hlt _ := stored?_allocate_of_lt o hlt

/-- A change of an object that is not among those that are kept. -/
theorem update_of_not (hn : ¬ p id) (h : Heap) (f : Object → Object) : Kept p h (h.update id f) where
  realm := rfl
  size := Nat.le_refl _
  sort id' hp _ := by
    have hne : id ≠ id' := by rintro rfl; exact hn hp
    rw [object_congr (stored?_update_of_ne hne f)]
  stored id' hp _ _ := by
    have hne : id ≠ id' := by rintro rfl; exact hn hp
    exact stored?_update_of_ne hne f

/-- A change of an object of the host that leaves its record inside. -/
theorem update_record {f : Object → Object} (hr : (h.object id).isRecord = true)
    (hf : (f (h.object id)).sort = (h.object id).sort) : Kept p h (h.update id f) where
  realm := rfl
  size := Nat.le_refl _
  sort id' _ _ := sort_update hf id'
  stored id' _ _ hr' := by
    refine stored?_update_of_ne ?_ f
    rintro rfl
    rw [hr] at hr'
    cases hr'

theorem object (hk : Kept p h h') (hp : p id) (hlt : id < h.objects.size) (hr : (h.object id).isRecord = false) :
    h'.object id = h.object id :=
  object_congr (hk.stored id hp hlt hr)

end Kept

/-! ## Names -/

theorem ownContent?_congr (ho : h'.object id = h.object id) (name : String) :
    h'.ownContent? id name = h.ownContent? id name := by
  unfold ownContent?
  rw [ho]

/-- What an object has of its own is what its name stands for. -/
theorem find?_of_own {name : String} {c : Content} (hc : h.ownContent? id name = some c) :
    h.find? id name = some c := by
  rw [find?, content?, hc]

/-- A name that an object does not have of its own stands for what it stands for above. -/
theorem find?_of_not_own {name : String} {a : ObjectId} (hc : h.ownContent? id name = none)
    (hp : (h.object id).parent = some a) : h.find? id name = h.content? name h.objects.size a := by
  rw [find?, content?, hc]
  simp only [hp]

/-- The object that new objects are below, and those above it. -/
inductive Above (h : Heap) : ObjectId → Prop
  | object : Above h h.realm.object
  | parent {a b : ObjectId} : Above h a → (h.object a).parent = some b → Above h b

/-- Nothing above a new object gets in the way of a name. It would be enough that no accessor stands there
under a name that is written; that none stands there at all is for every name. -/
structure Ready (h : Heap) : Prop where
  lt : ∀ a, h.Above a → a < h.objects.size
  notRecord : ∀ a, h.Above a → (h.object a).isRecord = false
  notGetter : ∀ a, h.Above a → ∀ name f, h.ownContent? a name ≠ some (.getter f)
  untyped : ∀ a, h.Above a → h.ownContent? a Exported.typeMember = none

namespace Ready

theorem above_of_kept {p : ObjectId → Prop} (hr : h.Ready) (hk : Kept p h h') (hp : ∀ a, h.Above a → p a) {a : ObjectId}
    (ha : h'.Above a) : h.Above a := by
  induction ha with
  | object => rw [hk.realm]; exact .object
  | @parent a b _ hparent ih =>
    rw [hk.object (hp a ih) (hr.lt a ih) (hr.notRecord a ih)] at hparent
    exact .parent ih hparent

theorem keep {p : ObjectId → Prop} (hr : h.Ready) (hk : Kept p h h') (hp : ∀ a, h.Above a → p a) : h'.Ready := by
  have same {a : ObjectId} (ha : h'.Above a) : h.Above a ∧ h'.object a = h.object a := by
    have ha := hr.above_of_kept hk hp ha
    exact ⟨ha, hk.object (hp a ha) (hr.lt a ha) (hr.notRecord a ha)⟩
  constructor
  · intro a ha
    exact Nat.lt_of_lt_of_le (hr.lt a (same ha).1) hk.size
  · intro a ha
    rw [(same ha).2]
    exact hr.notRecord a (same ha).1
  · intro a ha name f
    rw [ownContent?_congr (same ha).2]
    exact hr.notGetter a (same ha).1 name f
  · intro a ha
    rw [ownContent?_congr (same ha).2]
    exact hr.untyped a (same ha).1

/-- No name stands for a getter above a new object. -/
theorem content?_ne_getter (hr : h.Ready) (name : String) (f : ObjectId) (n : Nat) {a : ObjectId} (ha : h.Above a) :
    h.content? name n a ≠ some (.getter f) := by
  induction n generalizing a with
  | zero => nofun
  | succ n ih =>
    rw [content?]
    split
    · rename_i c hc
      rw [← hc]
      exact hr.notGetter a ha name f
    · split
      · rename_i b hb
        exact ih (.parent ha hb)
      · nofun

/-- The name that tells types stands for nothing there. -/
theorem content?_typeMember (hr : h.Ready) (n : Nat) {a : ObjectId} (ha : h.Above a) :
    h.content? Exported.typeMember n a = none := by
  induction n generalizing a with
  | zero => rfl
  | succ n ih =>
    rw [content?, hr.untyped a ha]
    simp only
    split
    · rename_i b hb
      exact ih (.parent ha hb)
    · rfl

end Ready

end Heap

/-! ## Properties of an object -/

namespace Object

/-- An object with a value under a name, the way in which it is stored. -/
def assign (o : Object) (name : String) (v : Value) : Object :=
  match o.property? name with
  | some p => o.put { p with content := .data v }
  | none => o.put { name, content := .data v }

theorem sort_assign (o : Object) (name : String) (v : Value) : (o.assign name v).sort = o.sort := by
  unfold assign
  split <;> rfl

theorem parent_assign (o : Object) (name : String) (v : Value) : (o.assign name v).parent = o.parent := by
  unfold assign
  split <;> rfl

theorem mem_putIn {p q : Property} {l : List Property} (h : q ∈ putIn p l) : q = p ∨ q ∈ l := by
  induction l with
  | nil => exact .inl (List.mem_singleton.1 h)
  | cons x rest ih =>
    rw [putIn] at h
    split at h
    · exact (List.mem_cons.1 h).imp_right (List.mem_cons_of_mem _)
    · rcases List.mem_cons.1 h with rfl | h
      · exact .inr List.mem_cons_self
      · exact (ih h).imp_right (List.mem_cons_of_mem _)

theorem putIn_of_not_mem {p : Property} {l : List Property} (h : ∀ q ∈ l, q.name ≠ p.name) : putIn p l = l ++ [p] := by
  induction l with
  | nil => rfl
  | cons x rest ih =>
    have hx : ¬ (x.name == p.name) = true := by simpa using h x List.mem_cons_self
    rw [putIn, if_neg hx, ih fun q hq => h q (List.mem_cons_of_mem _ hq)]
    rfl

/-- A value under a new name stands behind all others. -/
theorem assign_of_not_mem {o : Object} {name : String} (h : ∀ q ∈ o.properties, q.name ≠ name) (v : Value) :
    o.assign name v = { o with properties := o.properties ++ [{ name, content := .data v }] } := by
  have hnone : o.property? name = none := by
    rw [property?, List.find?_eq_none]
    intro q hq
    simpa using h q hq
  have hput : putIn ({ name, content := .data v } : Property) o.properties =
      o.properties ++ [{ name, content := .data v }] := putIn_of_not_mem h
  rw [assign, hnone]
  simp only [put, hput]

/-- All properties hold values. -/
def IsData (o : Object) : Prop := ∀ p ∈ o.properties, ∃ v, p.content = .data v

theorem IsData.assign {o : Object} (h : o.IsData) (name : String) (v : Value) : (o.assign name v).IsData := by
  intro p hp
  unfold Object.assign at hp
  split at hp <;> rcases mem_putIn hp with rfl | hp
  · exact ⟨v, rfl⟩
  · exact h p hp
  · exact ⟨v, rfl⟩
  · exact h p hp

theorem isRecord_iff {o : Object} : o.isRecord = true ↔ ∃ r, o.sort = .record r := by
  unfold isRecord
  split
  · rename_i r hs
    exact ⟨fun _ => ⟨r, hs⟩, fun _ => rfl⟩
  · rename_i hs
    exact ⟨nofun, fun ⟨r, hr⟩ => absurd hr (hs r)⟩

/-- Whether an object has neither items nor the names of a function. -/
def isBare (o : Object) : Bool :=
  match o.sort with
  | .plain | .record _ => true
  | _ => false

theorem itemCount?_of_bare {o : Object} (h : o.isBare = true) : Run.itemCount? o = none := by
  unfold isBare at h
  rw [Run.itemCount?]
  split
  · rename_i hs
    rw [hs] at h
    cases h
  · rfl

end Object

theorem Heap.ownContent?_of_bare {h : Heap} {id : ObjectId} (hb : (h.object id).isBare = true) (name : String) :
    h.ownContent? id name = ((h.object id).property? name).map (·.content) := by
  unfold Object.isBare at hb
  unfold Heap.ownContent?
  split at hb
  · rename_i hs; simp only [hs]
  · rename_i hs; simp only [hs]
  · cases hb

theorem Heap.ownContent?_of_isData {h : Heap} {id : ObjectId} (hb : (h.object id).isBare = true)
    (hd : (h.object id).IsData) (name : String) (f : ObjectId) : h.ownContent? id name ≠ some (.getter f) := by
  rw [ownContent?_of_bare hb]
  intro hc
  obtain ⟨p, hp, hget⟩ := Option.map_eq_some_iff.1 hc
  obtain ⟨v, hv⟩ := hd p (List.mem_of_find?_eq_some hp)
  rw [hv] at hget
  cases hget

/-- What is assigned to an object of the host leaves its record inside. -/
theorem Heap.Kept.assign_record {h : Heap} {id : ObjectId} (hr : (h.object id).isRecord = true) (p : ObjectId → Prop)
    (name : String) (v : Value) : Kept p h (h.update id (·.assign name v)) :=
  .update_record hr (Object.sort_assign _ name v)

end Scripting.Js
