/-
What a tree looks like in the heap that it was written into. `Holds` says so one node at a time, and
says where the objects are; so it goes on holding while nothing else than what `Kept` allows happens
there. An object under construction is not kept, but it lies below all that its members are written to.
-/
import Scripting.Js.Crossing
import Scripting.Proofs.Js.Heap
import Mathlib.Logic.Function.Basic

namespace Scripting.Js

/-! ## Trees in a heap -/

/-- The value of a script that a scalar is. -/
def ofScalar? : Scripting.Value → Option Value
  | .void => some .null
  | .bool b => some (.bool b)
  | .int i => some (.number (.ofInt i.toInt))
  | .float x => some (.number (.ofBinary64 x))
  | .string s => some (.string s)
  | _ => none

/-- A property that holds the value of its name. -/
def Property.holding (values : String → Value) (name : String) : Property := { name, content := .data (values name) }

/-- A plain object below another that holds values under the names of members. -/
def Object.holding (parent : ObjectId) (values : String → Value) (members : List (String × Exported)) : Object :=
  { parent := some parent, properties := members.map fun m => .holding values m.1 }

/-- A value of a script shows a tree: the objects of it have numbers from a bound on. -/
inductive Holds (h : Heap) (bound : ObjectId) : Exported → Value → Prop
  | scalar {v : Scripting.Value} {j : Value} : ofScalar? v = some j → Holds h bound (.scalar v) j
  | array {items : List Exported} {js : List Value} {id : ObjectId} : bound ≤ id → id < h.objects.size →
      (h.object id).sort = .array (js.map some).toArray → js.length = items.length →
      (∀ e j, (e, j) ∈ items.zip js → Holds h bound e j) → Holds h bound (.array items) (.object id)
  | object {members : List (String × Exported)} {values : String → Value} {id : ObjectId} : bound ≤ id →
      id < h.objects.size →
      h.object id = .holding h.realm.object values members → (∀ n e, (n, e) ∈ members →
        Holds h bound e (values n)) → Holds h bound (.object members) (.object id)
  | wrapped {r : Record} {id : ObjectId} : bound ≤ id → id < h.objects.size → (h.object id).sort = .record r →
      Holds h bound (.wrapped r) (.object id)

namespace Holds

variable {h h' : Heap} {bound low : ObjectId} {e : Exported} {j : Value}

theorem mono (hh : Holds h bound e j) (hle : low ≤ bound) : Holds h low e j := by
  induction hh with
  | scalar hv => exact .scalar hv
  | array hb hlt hs hlen _ ih => exact .array (Nat.le_trans hle hb) hlt hs hlen ih
  | object hb hlt ho _ ih => exact .object (Nat.le_trans hle hb) hlt ho ih
  | wrapped hb hlt hs => exact .wrapped (Nat.le_trans hle hb) hlt hs

/-- A tree stays where it is while its objects are kept. -/
theorem keep (hh : Holds h bound e j) (hk : Heap.Kept (bound ≤ ·) h h') : Holds h' bound e j := by
  induction hh with
  | scalar hv => exact .scalar hv
  | array hb hlt hs hlen _ ih =>
    exact .array hb (Nat.lt_of_lt_of_le hlt hk.size) ((hk.sort _ hb hlt).trans hs) hlen ih
  | @object members values id hb hlt ho _ ih =>
    have hrecord : (h.object id).isRecord = false := by rw [ho]; rfl
    refine .object hb (Nat.lt_of_lt_of_le hlt hk.size) ?_ ih
    rw [hk.object hb hlt hrecord, ho, hk.realm]
  | wrapped hb hlt hs => exact .wrapped hb (Nat.lt_of_lt_of_le hlt hk.size) ((hk.sort _ hb hlt).trans hs)

end Holds

/-! ## An object under construction -/

/-- An object that values are stored into: a new one, which nothing else depends on. -/
structure Building (h : Heap) (id : ObjectId) (o : Object) : Prop where
  ready : h.Ready
  apart : ¬ h.Above id
  lt : id < h.objects.size
  stored : h.stored? id = some o
  parent : o.parent = some h.realm.object
  bare : o.isBare = true
  data : o.IsData

namespace Building

open Heap

variable {h h' : Heap} {id : ObjectId} {o : Object}

theorem of_allocate (hr : h.Ready) (hp : o.parent = some h.realm.object) (hb : o.isBare = true)
    (hd : o.properties = []) : Building (h.allocate o).2 h.objects.size o where
  ready := hr.keep (.allocate _ h o) fun _ _ => trivial
  apart ha := by
    have hlt := hr.lt _ (hr.above_of_kept (.allocate _ h o) (fun _ _ => trivial) ha)
    exact Nat.lt_irrefl _ hlt
  lt := Nat.lt_succ_self _
  stored := stored?_allocate_self h o
  parent := hp
  bare := hb
  data := by rw [Object.IsData, hd]; exact nofun

theorem object_eq (hb : Building h id o) : h.object id = o := object_of_stored hb.stored

/-- What is done elsewhere leaves it alone. -/
theorem of_kept (hb : Building h id o) (hk : KeptAll h h') (hs : h'.stored? id = some o) : Building h' id o where
  ready := hb.ready.keep hk fun _ _ => trivial
  apart ha := hb.apart (hb.ready.above_of_kept hk (fun _ _ => trivial) ha)
  lt := Nat.lt_of_lt_of_le hb.lt hk.size
  stored := hs
  parent := by rw [hb.parent, hk.realm]
  bare := hb.bare
  data := hb.data

theorem allocate (hb : Building h id o) (o' : Object) : Building (h.allocate o').2 id o :=
  hb.of_kept (.allocate _ h o') ((stored?_allocate_of_lt o' hb.lt).trans hb.stored)

theorem assign (hb : Building h id o) (name : String) (v : Value) :
    Building (h.update id (·.assign name v)) id (o.assign name v) := by
  have hk : Kept (· ≠ id) h (h.update id (·.assign name v)) := .update_of_not (fun hn => hn rfl) h _
  have hp (a : ObjectId) (ha : h.Above a) : a ≠ id := by
    rintro rfl
    exact hb.apart ha
  -- the object changes, but nothing above new objects does
  constructor
  · exact hb.ready.keep hk hp
  · exact fun ha => hb.apart (hb.ready.above_of_kept hk hp ha)
  · exact hb.lt
  · exact stored?_update_self hb.stored _
  · rw [Object.parent_assign, hb.parent]
    rfl
  · rw [Object.isBare, Object.sort_assign]
    exact hb.bare
  · exact hb.data.assign name v

theorem hasGetter_eq_false (hb : Building h id o) (name : String) : Run.hasGetter h id name = false := by
  have hbare : (h.object id).isBare = true := by rw [hb.object_eq, hb.bare]
  have hdata : (h.object id).IsData := by rw [hb.object_eq]; exact hb.data
  have hown := Heap.ownContent?_of_isData hbare hdata name
  have hparent : (h.object id).parent = some h.realm.object := by rw [hb.object_eq, hb.parent]
  rw [Run.hasGetter]
  split
  · rename_i f hf
    cases hc : h.ownContent? id name with
    | some c =>
      rw [find?_of_own hc] at hf
      exact absurd (hc.trans hf) (hown f)
    | none =>
      rw [find?_of_not_own hc hparent] at hf
      exact absurd hf (hb.ready.content?_ne_getter name f _ .object)
  · rfl

/-- A value is stored under whatever name. -/
theorem outcome_storeNamed (hb : Building h id o) (answer : (d : Demand) → d.Answer) (m : Machine) (name : String)
    (v : Value) : Run.outcome answer (Run.storeNamed id name v) (m.withHeap h) =
      (.ok (), m.withHeap (h.update id (·.assign name v))) := by
  have hcount : Run.itemCount? (h.object id) = none := by
    rw [hb.object_eq, Object.itemCount?_of_bare hb.bare]
  have hbranch : Run.outcome answer (Run.storeNamed id name v) (m.withHeap h) =
      Run.outcome answer (Run.storeProperty id name v) (m.withHeap h) := by
    rw [Run.storeNamed, Run.outcome_bind_ok Run.outcome_heap, Machine.heap_withHeap, hcount]
    show Run.outcome answer (Run.heap >>= _) _ = _
    rw [Run.outcome_bind_ok Run.outcome_heap, Machine.heap_withHeap, hb.hasGetter_eq_false]
    rfl
  rw [hbranch]
  exact Run.outcome_changeHeap _

end Building

/-! ## Writing -/

namespace Run

variable (answer : (d : Demand) → d.Answer)

/-- A tree can be written into every heap that is ready for it. It is there then, in new objects. -/
def Written (e : Exported) : Prop := ∀ m : Machine, m.heap.Ready → ∃ j h',
  outcome answer (write e) m = (.ok j, m.withHeap h') ∧ Heap.KeptAll m.heap h' ∧
    Holds h' m.heap.objects.size e j

variable {answer}

theorem written_scalar {v : Scripting.Value} {j : Value} (hv : ofScalar? v = some j) : Written answer (.scalar v) := by
  intro m _
  have hwrite : writeScalar v = return j := by
    cases v with
    | void | bool | int | float | string => cases hv; rfl
    | _ => cases hv
  exact ⟨j, m.heap, by rw [write, hwrite]; rfl, .refl _ _, .scalar hv⟩

variable (answer) in
theorem outcome_storeMethods {id : ObjectId} (methods : List String) {m : Machine} {o : Object} {r : Record}
    (hb : Building m.heap id o) (hr : o.sort = .record r) : ∃ o' h',
      outcome answer (methods.forM fun method => do storeNamed id method (← newFunction (.method method))) m =
        (.ok (), m.withHeap h') ∧ Heap.KeptAll m.heap h' ∧ Building h' id o' ∧ o'.sort = .record r := by
  induction methods generalizing m o with
  | nil => exact ⟨o, m.heap, rfl, .refl _ _, hb, hr⟩
  | cons method rest ih =>
    obtain ⟨f, h1, hnew, hk1, hb1⟩ : ∃ f h1, outcome answer (newFunction (.method method)) m = (.ok f, m.withHeap h1) ∧
        Heap.KeptAll m.heap h1 ∧ Building h1 id o :=
      ⟨_, (m.heap.allocateFunction (.method method)).2, rfl, .allocate _ _ _, hb.allocate _⟩
    have hrecord : (h1.object id).isRecord = true := by rw [hb1.object_eq, Object.isRecord, hr]
    have hk2 := Heap.Kept.assign_record hrecord (fun _ => True) method f
    have hstore := hb1.outcome_storeNamed answer m method f
    obtain ⟨o', h', hrest, hk, hb', hr'⟩ := ih (m := m.withHeap (h1.update id (·.assign method f)))
      (hb1.assign method f) ((Object.sort_assign ..).trans hr)
    refine ⟨o', h', ?_, hk1.trans (hk2.trans hk), hb', hr'⟩
    show outcome answer (_ >>= fun _ => rest.forM _) m = _
    rw [outcome_bind_ok ((outcome_bind_ok hnew _).trans hstore)]
    exact hrest

theorem written_wrapped (r : Record) : Written answer (.wrapped r) := by
  intro m hready
  obtain ⟨h1, hnew, hk1, hb⟩ : ∃ h1,
      outcome answer (allocate fun h => h.allocate { sort := .record r, parent := some h.realm.object }) m =
        (.ok m.heap.objects.size, m.withHeap h1) ∧ Heap.KeptAll m.heap h1 ∧
      Building h1 m.heap.objects.size { sort := .record r, parent := some m.heap.realm.object } :=
    ⟨_, rfl, .allocate _ _ _, .of_allocate hready rfl rfl rfl⟩
  have hrecord : (h1.object m.heap.objects.size).isRecord = true := by
    rw [hb.object_eq]
    rfl
  have hk2 := Heap.Kept.assign_record hrecord (fun _ => True) Exported.typeMember (.string r.typeName)
  have htype := hb.outcome_storeNamed answer m Exported.typeMember (.string r.typeName)
  obtain ⟨o', h', hmethods, hk, hb', hr'⟩ := outcome_storeMethods answer
    ((((answer .shapes).shapeOf? r).map Shape.methodNames).getD [])
    (m := m.withHeap (h1.update m.heap.objects.size (·.assign Exported.typeMember (.string r.typeName))))
    (hb.assign Exported.typeMember (.string r.typeName)) (Object.sort_assign ..)
  refine ⟨.object m.heap.objects.size, h', ?_, hk1.trans (hk2.trans hk), ?_⟩
  · rw [write, wrap, outcome_bind_ok (outcome_ask _), outcome_bind_ok hnew, outcome_bind_ok htype,
      outcome_bind_ok hmethods]
    rfl
  · refine .wrapped (Nat.le_refl _) hb'.lt ?_
    rw [hb'.object_eq, hr']

theorem outcome_writeItems {items : List Exported} (hw : ∀ e ∈ items, Written answer e) {m : Machine}
    (hready : m.heap.Ready) : ∃ js h',
      outcome answer (writeItems items) m = (.ok (js.map some), m.withHeap h') ∧
      Heap.KeptAll m.heap h' ∧ js.length = items.length ∧
      ∀ e j, (e, j) ∈ items.zip js → Holds h' m.heap.objects.size e j := by
  induction items generalizing m with
  | nil => exact ⟨[], m.heap, rfl, .refl _ _, rfl, nofun⟩
  | cons e rest ih =>
    obtain ⟨j, h1, he, hk1, hj⟩ := hw e List.mem_cons_self m hready
    obtain ⟨js, h2, hrest, hk2, hlen, hjs⟩ := ih (fun e' he' => hw e' (List.mem_cons_of_mem _ he'))
      (m := m.withHeap h1) (hready.keep hk1 fun _ _ => trivial)
    refine ⟨j :: js, h2, ?_, hk1.trans hk2, congrArg (· + 1) hlen, ?_⟩
    · rw [writeItems, outcome_bind_ok he, outcome_bind_ok hrest]
      rfl
    · intro e' j' hmem
      rcases List.mem_cons.1 hmem with heq | hmem
      · cases heq
        exact hj.keep (hk2.mono fun _ _ _ => trivial)
      · exact (hjs e' j' hmem).mono hk1.size

theorem written_array {items : List Exported} (hw : ∀ e ∈ items, Written answer e) : Written answer (.array items) := by
  intro m hready
  obtain ⟨js, h1, hitems, hk, hlen, hjs⟩ := outcome_writeItems hw hready
  have hk' : Heap.KeptAll h1 (h1.allocateArray (js.map some).toArray).2 := .allocate _ _ _
  refine ⟨.object h1.objects.size, (h1.allocateArray (js.map some).toArray).2, ?_, hk.trans hk', ?_⟩
  · rw [write, outcome_bind_ok hitems]
    rfl
  · have hitems (e : Exported) (j : Value) (hmem : (e, j) ∈ items.zip js) := (hjs e j hmem).keep
      (hk'.mono fun _ _ _ => trivial)
    refine .array hk.size (Nat.lt_succ_self _) ?_ hlen hitems
    exact congrArg Object.sort (Heap.object_of_stored (Heap.stored?_allocate_self _ _))

/-- A member with a new name is stored behind those that are there. What its value is made of comes
behind the object, so it is kept while the object grows. -/
theorem outcome_writeMember {e : Exported} (hw : Written answer e) {id : ObjectId} {m : Machine} {o : Object}
    (hb : Building m.heap id o) (hr : o.isRecord = false) {name : String} (hnew : ∀ q ∈ o.properties, q.name ≠ name) :
    ∃ j h1 h2, outcome answer (write e) m = (.ok j, m.withHeap h1) ∧
      outcome answer (storeNamed id name j) (m.withHeap h1) = (.ok (), m.withHeap h2) ∧
      Heap.Kept (· ≠ id) m.heap h2 ∧
      Building h2 id { o with properties := o.properties ++ [{ name, content := .data j }] } ∧ Holds h2 (id + 1) e j := by
  obtain ⟨j, h1, he, hk1, hj⟩ := hw m hb.ready
  have hrecord : (m.heap.object id).isRecord = false := by rw [hb.object_eq, hr]
  have hb1 : Building h1 id o := hb.of_kept hk1 ((hk1.stored id trivial hb.lt hrecord).trans hb.stored)
  have hk2 : Heap.Kept (· ≠ id) h1 (h1.update id (·.assign name j)) := .update_of_not (fun hne => hne rfl) h1 _
  refine ⟨j, h1, _, he, hb1.outcome_storeNamed answer m name j, (hk1.mono fun _ _ _ => trivial).trans hk2, ?_, ?_⟩
  · rw [← Object.assign_of_not_mem hnew j]
    exact hb1.assign name j
  · exact (hj.mono (Nat.succ_le_of_lt hb.lt)).keep (hk2.mono fun _ hle _ => Nat.ne_of_gt hle)

/-- Members with different names are stored behind those that are there, and hold what was written. -/
theorem outcome_writeMembers {id : ObjectId} {members : List (String × Exported)} (hn : (members.map Prod.fst).Nodup)
    (hw : ∀ x ∈ members, Written answer x.2) {m : Machine} {o : Object} (hb : Building m.heap id o)
    (hr : o.isRecord = false) (hnew : ∀ q ∈ o.properties, q.name ∉ members.map Prod.fst) : ∃ values h',
      outcome answer (writeMembers id members) m = (.ok (), m.withHeap h') ∧ Heap.Kept (· ≠ id) m.heap h' ∧
      h'.stored? id = some { o with properties := o.properties ++ members.map fun x => .holding values x.1 } ∧
      ∀ n e, (n, e) ∈ members → Holds h' (id + 1) e (values n) := by
  induction members generalizing m o with
  | nil =>
    refine ⟨fun _ => .undefined, m.heap, rfl, .refl _ _, ?_, nofun⟩
    rw [List.map_nil, List.append_nil, hb.stored]
  | cons x rest ih =>
    obtain ⟨name, e⟩ := x
    obtain ⟨hfresh, hn⟩ := List.nodup_cons.1 hn
    obtain ⟨j, h1, h2, he, hstore, hk2, hb2, hj⟩ := outcome_writeMember (hw (name, e) List.mem_cons_self) hb hr
      (fun q hq heq => hnew q hq (heq ▸ List.mem_cons_self))
    have hnew2 : ∀ q ∈ o.properties ++ [{ name, content := .data j }], q.name ∉ rest.map Prod.fst := by
      intro q hq
      rcases List.mem_append.1 hq with hq | hq
      · exact fun hmem => hnew q hq (List.mem_cons_of_mem _ hmem)
      · rw [List.mem_singleton] at hq
        exact hq ▸ hfresh
    obtain ⟨values, h3, hrest, hk3, hstored, hheld⟩ := ih hn (fun y hy => hw y (List.mem_cons_of_mem _ hy))
      (m := m.withHeap h2) hb2 hr hnew2
    have hother {y : String × Exported} (hmem : y ∈ rest) : y.1 ≠ name :=
      fun heq => hfresh (List.mem_map.2 ⟨y, hmem, heq⟩)
    refine ⟨Function.update values name j, h3, ?_, hk2.trans hk3, ?_, ?_⟩
    · rw [writeMembers, outcome_bind_ok he, outcome_bind_ok hstore, hrest, Machine.withHeap_withHeap]
    · have hsame : (rest.map fun x => Property.holding (Function.update values name j) x.1) =
          rest.map fun x => Property.holding values x.1 := by
        refine List.map_congr_left fun y hy => ?_
        rw [Property.holding, Function.update_of_ne (hother hy), Property.holding]
      rw [hstored, List.map_cons, hsame, Property.holding, Function.update_self]
      simp
    · intro n e' hmem
      rcases List.mem_cons.1 hmem with heq | hmem
      · cases heq
        rw [Function.update_self]
        exact hj.keep (hk3.mono fun _ hle _ => Nat.ne_of_gt hle)
      · rw [Function.update_of_ne (hother hmem)]
        exact hheld n e' hmem

theorem written_object {members : List (String × Exported)} (hn : (members.map Prod.fst).Nodup)
    (hw : ∀ x ∈ members, Written answer x.2) : Written answer (.object members) := by
  intro m hready
  obtain ⟨h1, hnew, hk1, hb⟩ : ∃ h1, outcome answer newPlain m = (.ok m.heap.objects.size, m.withHeap h1) ∧
      Heap.KeptAll m.heap h1 ∧ Building h1 m.heap.objects.size { parent := some m.heap.realm.object } :=
    ⟨_, rfl, .allocate _ _ _, .of_allocate hready rfl rfl rfl⟩
  obtain ⟨values, h', hmembers, hk, hstored, hheld⟩ := outcome_writeMembers hn hw
    (m := m.withHeap h1) hb rfl nofun
  have hk' : Heap.KeptAll m.heap h' :=
    ((hk1.mono fun _ _ _ => trivial).trans hk).mono fun _ _ hlt => Nat.ne_of_lt hlt
  refine ⟨.object m.heap.objects.size, h', ?_, hk', ?_⟩
  · rw [write, outcome_bind_ok hnew, outcome_bind_ok hmembers]
    rfl
  · refine .object (Nat.le_refl _) (Nat.lt_of_lt_of_le hb.lt hk.size) ?_ fun n e hmem =>
      (hheld n e hmem).mono (Nat.le_succ _)
    rw [Heap.object_of_stored hstored, List.nil_append, hk'.realm]
    rfl

end Run

end Scripting.Js
