/-
What is read of a tree that stands in a heap. An object is read under its own names, whatever stands
above it, and the names come in an order of their own; so of a value that was handed to a script all
comes back, with some freedom that `Returns` spells out: the tag of a number, the sort of an aggregate,
the keys of a map and the order of the fields of a record without a shape.
-/
import Scripting.Proofs.Js.Writing
import Scripting.Proofs.Bridge.Results
import Scripting.Proofs.Value.Basic
import Scripting.Proofs.Value.Integer

namespace Scripting

/-! ## What may come back -/

namespace Value

section

variable (shapes : Shapes)

mutual

/-- What may come back for a value: a number of the same worth for a number, a list for a plural, text
for the keys of a map, a record with its fields in another order for one without a shape. A record with
a shape comes back as it is. -/
def Returns : Value → Value → Prop
  | .record typeName fields, w =>
    if Assoc.contains typeName shapes then w = .record typeName fields
    else ∃ fields', w = .record typeName fields' ∧ ∃ l, l.Perm fields' ∧ ReturnsFields fields l
  | .ordered _ items, w => ∃ items', w = .list items' ∧ ReturnsItems items items'
  | .keyed _ entries, w =>
    ∃ entries', w = (Aggregate.map .string .any entries').toValue ∧ ReturnsEntries entries entries'
  | .plural _ items, w => ∃ items', w = .list items' ∧ ReturnsItems items items'
  | v, w => w = v ∨ ∃ q, v.rational? = some q ∧ w.rational? = some q
termination_by structural v => v

def ReturnsItems : List Value → List Value → Prop
  | [], [] => True
  | v :: rest, w :: rest' => Returns v w ∧ ReturnsItems rest rest'
  | _, _ => False
termination_by structural l => l

def ReturnsFields : List (String × Value) → List (String × Value) → Prop
  | [], [] => True
  | (n, v) :: rest, (n', w) :: rest' => n' = n ∧ Returns v w ∧ ReturnsFields rest rest'
  | _, _ => False
termination_by structural l => l

def ReturnsEntries : List (Key × Value) → List (Key × Value) → Prop
  | [], [] => True
  | (k, v) :: rest, (k', w) :: rest' => k' = .string k.text ∧ Returns v w ∧ ReturnsEntries rest rest'
  | _, _ => False
termination_by structural l => l

end

mutual

/-- Outside of records with a shape, integers are ones that doubles have, and names are different and
not the one that tells types. -/
def Travels : Value → Prop
  | .int i => -2 ^ 53 ≤ i.toInt ∧ i.toInt ≤ 2 ^ 53
  | .record typeName fields => Assoc.contains typeName shapes = true ∨
    (fields.map Prod.fst).Nodup ∧ Exported.typeMember ∉ fields.map Prod.fst ∧ TravelsFields fields
  | .ordered _ items => TravelsItems items
  | .keyed _ entries => (entries.map (·.1.text)).Nodup ∧ Exported.typeMember ∉ entries.map (·.1.text) ∧
    TravelsEntries entries
  | .plural _ items => TravelsItems items
  | _ => True

def TravelsItems : List Value → Prop
  | [] => True
  | v :: rest => Travels v ∧ TravelsItems rest

def TravelsFields : List (String × Value) → Prop
  | [] => True
  | (_, v) :: rest => Travels v ∧ TravelsFields rest

def TravelsEntries : List (Key × Value) → Prop
  | [] => True
  | (_, v) :: rest => Travels v ∧ TravelsEntries rest

end

variable {shapes}

/-- Something holds of a value if it holds of all that stands directly inside; records with a shape are
not looked into. -/
structure Inherited (shapes : Shapes) (p : Value → Prop) : Prop where
  scalar : ∀ v, v.isScalar = true → v.Travels shapes → p v
  handle : ∀ h, p (.handle h)
  shaped : ∀ typeName fields, Assoc.contains typeName shapes = true → p (.record typeName fields)
  record : ∀ typeName fields, ¬ Assoc.contains typeName shapes = true → (fields.map Prod.fst).Nodup →
    Exported.typeMember ∉ fields.map Prod.fst → (∀ f ∈ fields, p f.2) → p (.record typeName fields)
  ordered : ∀ type items, (∀ v ∈ items, p v) → p (.ordered type items)
  keyed : ∀ type entries, (entries.map (·.1.text)).Nodup → Exported.typeMember ∉ entries.map (·.1.text) →
    (∀ e ∈ entries, p e.2) → p (.keyed type entries)
  plural : ∀ type items, (∀ v ∈ items, p v) → p (.plural type items)

namespace Inherited

variable {p : Value → Prop}

mutual

/-- It holds of every value that travels then. -/
theorem of_travels (hp : Inherited shapes p) : ∀ v : Value, v.Travels shapes → p v
  | .void, h | .bool _, h | .int _, h | .float _, h | .string _, h => hp.scalar _ rfl h
  | .handle h, _ => hp.handle h
  | .record typeName fields, h => by
    by_cases hs : Assoc.contains typeName shapes = true
    · exact hp.shaped _ _ hs
    · obtain ⟨hn, hm, hf⟩ := h.resolve_left hs
      exact hp.record _ _ hs hn hm (hp.of_travelsFields fields hf)
  | .ordered _ items, h => hp.ordered _ _ (hp.of_travelsItems items h)
  | .keyed _ entries, h => hp.keyed _ _ h.1 h.2.1 (hp.of_travelsEntries entries h.2.2)
  | .plural _ items, h => hp.plural _ _ (hp.of_travelsItems items h)

theorem of_travelsItems (hp : Inherited shapes p) : ∀ items, TravelsItems shapes items → ∀ v ∈ items, p v
  | [], _ => nofun
  | v :: rest, h => List.forall_mem_cons.2 ⟨hp.of_travels v h.1, hp.of_travelsItems rest h.2⟩

theorem of_travelsFields (hp : Inherited shapes p) : ∀ fields, TravelsFields shapes fields → ∀ f ∈ fields, p f.2
  | [], _ => nofun
  | (_, v) :: rest, h => List.forall_mem_cons.2 ⟨hp.of_travels v h.1, hp.of_travelsFields rest h.2⟩

theorem of_travelsEntries (hp : Inherited shapes p) : ∀ entries, TravelsEntries shapes entries → ∀ e ∈ entries, p e.2
  | [], _ => nofun
  | (_, v) :: rest, h => List.forall_mem_cons.2 ⟨hp.of_travels v h.1, hp.of_travelsEntries rest h.2⟩

end

end Inherited

theorem returnsFields_map {fields : List (String × Value)} {result : String → Value}
    (h : ∀ f ∈ fields, Returns shapes f.2 (result f.1)) :
    ReturnsFields shapes fields (fields.map fun f => (f.1, result f.1)) := by
  induction fields with
  | nil => trivial
  | cons f rest ih =>
    exact ⟨rfl, h f List.mem_cons_self, ih fun f' hf => h f' (List.mem_cons_of_mem _ hf)⟩

theorem returnsEntries_map {entries : List (Key × Value)} {result : String → Value}
    (h : ∀ e ∈ entries, Returns shapes e.2 (result e.1.text)) :
    ReturnsEntries shapes entries (entries.map fun e => (.string e.1.text, result e.1.text)) := by
  induction entries with
  | nil => trivial
  | cons e rest ih =>
    exact ⟨rfl, h e List.mem_cons_self, ih fun e' he => h e' (List.mem_cons_of_mem _ he)⟩

end

end Value

/-! ## Depth -/

namespace Exported

mutual

/-- The number of steps that lead to what is deepest in a tree. -/
def depth : Exported → Nat
  | .array items => depthItems items
  | .object members => depthMembers members
  | _ => 0

def depthItems : List Exported → Nat
  | [] => 0
  | e :: rest => max (e.depth + 1) (depthItems rest)

def depthMembers : List (String × Exported) → Nat
  | [] => 0
  | (_, e) :: rest => max (e.depth + 1) (depthMembers rest)

end

theorem depth_item {items : List Exported} {e : Exported} (h : e ∈ items) : e.depth < (array items).depth := by
  rw [depth]
  induction items with
  | nil => cases h
  | cons a rest ih =>
    rw [depthItems]
    rcases List.mem_cons.1 h with rfl | h
    · omega
    · have := ih h
      omega

theorem depth_member {members : List (String × Exported)} {n : String} {e : Exported} (h : (n, e) ∈ members) :
    e.depth < (object members).depth := by
  rw [depth]
  induction members with
  | nil => cases h
  | cons a rest ih =>
    obtain ⟨n', a⟩ := a
    rw [depthMembers]
    rcases List.mem_cons.1 h with h | h
    · cases h
      omega
    · have := ih h
      omega

end Exported

namespace Js

/-! ## Numbers -/

/-- The value of the host that a number is. -/
def Number.toValue : Number → Scripting.Value
  | .int i => .int i.toInt64
  | .float x => .float x

theorem Number.toInt_of_fits {i : Int} (h : fits i = true) : i.toInt32.toInt64.toInt = i := by
  rw [fits, int32?] at h
  split at h
  · rename_i hi
    rw [Int32.toInt_toInt64]
    exact Int32.toInt_ofInt_of_le hi.1 (Int.lt_add_one_of_le hi.2)
  · cases h

/-- An integer that doubles have keeps its worth. -/
theorem Number.rational?_ofInt {i : Int} (hlow : -2 ^ 53 ≤ i) (hhigh : i ≤ 2 ^ 53) :
    (Number.ofInt i).toValue.rational? = some (i : ℚ) := by
  rw [Number.ofInt]
  split
  · rename_i hfits
    rw [toValue, Value.rational?, toInt_of_fits hfits]
  · obtain ⟨hfinite, hworth⟩ := Binary64.worth_ofInt (i := i) (by omega)
    rw [toValue, Value.rational?, if_pos hfinite, hworth]

/-- A double comes back as it is, or as the integer of its worth. -/
theorem Number.toValue_ofBinary64 (x : Binary64) : (Number.ofBinary64 x).toValue = .float x ∨
    ∃ q, (Scripting.Value.float x).rational? = some q ∧ (Number.ofBinary64 x).toValue.rational? = some q := by
  rw [Number.ofBinary64]
  split
  · rename_i h
    simp only [Bool.and_eq_true] at h
    obtain ⟨⟨⟨hfinite, hwhole⟩, hfits⟩, -⟩ := h
    refine .inr ⟨x.worth, by rw [Value.rational?, if_pos hfinite], ?_⟩
    rw [toValue, Value.rational?, toInt_of_fits hfits, Binary64.worth_of_isWhole hwhole]
  · exact .inl rfl

/-! ## The names of an object -/

theorem Object.property?_holding (parent : ObjectId) (values : String → Value) (members : List (String × Exported))
    (name : String) : (Object.holding parent values members).property? name =
      if name ∈ members.map Prod.fst then some (.holding values name) else none := by
  rw [Object.property?, Object.holding]
  induction members with
  | nil => rfl
  | cons x rest ih =>
    obtain ⟨n, e⟩ := x
    rw [List.map_cons, List.find?_cons, List.map_cons]
    by_cases hn : n = name
    · subst hn
      simp [Property.holding]
    · have hbeq : ((Property.holding values n).name == name) = false := by simpa [Property.holding] using hn
      have hmem : name ∈ n :: rest.map Prod.fst ↔ name ∈ rest.map Prod.fst := by simp [Ne.symm hn]
      simp only [hbeq, ih, hmem]

theorem Heap.ownNames_perm {h : Heap} {id parent : ObjectId} {members : List (String × Exported)}
    {values : String → Value} (ho : h.object id = .holding parent values members) :
    (h.ownNames id).Perm (members.map Prod.fst) := by
  have hnames : (((h.object id).properties.filter (·.isEnumerable)).map (·.name)) = members.map Prod.fst := by
    rw [ho, Object.holding, List.filter_map, List.map_map]
    have hall : members.filter ((·.isEnumerable) ∘ fun x => Property.holding values x.1) = members :=
      List.filter_eq_self.2 fun _ _ => rfl
    rw [hall]
    rfl
  have hs : (h.object id).sort = .plain := by rw [ho]; rfl
  -- indices come first and in order, so it is the same names in another arrangement
  rw [ownNames]
  simp only [hs, hnames, List.partition_eq_filter_filter, List.nil_append]
  exact ((List.mergeSort_perm _ _).append_right _).trans (List.filter_append_perm _ _)

/-- A plain object shows values under names: those are its own visible names, in some order, it has nothing
else of its own, and it inherits nothing under the name that tells types. -/
structure Heap.Shows (h : Heap) (id : ObjectId) (names : List String) (values : String → Value) : Prop where
  plain : (h.object id).sort = .plain
  visible : (h.ownNames id).Perm names
  own : ∀ name, h.ownContent? id name = if name ∈ names then some (.data (values name)) else none
  inherited : Exported.typeMember ∉ names → h.find? id Exported.typeMember = none

theorem Heap.shows_holding {h : Heap} (hready : h.Ready) {id : ObjectId} {members : List (String × Exported)}
    {values : String → Value} (ho : h.object id = .holding h.realm.object values members) :
    h.Shows id (members.map Prod.fst) values := by
  have hown (name : String) : h.ownContent? id name =
      if name ∈ members.map Prod.fst then some (.data (values name)) else none := by
    rw [ownContent?_of_bare (by rw [ho]; rfl), ho, Object.property?_holding]
    split <;> rfl
  refine ⟨by rw [ho]; rfl, ownNames_perm ho, hown, fun ht => ?_⟩
  have hparent : (h.object id).parent = some h.realm.object := by rw [ho]; rfl
  have hnone := hown Exported.typeMember
  rw [if_neg ht] at hnone
  rw [find?_of_not_own hnone hparent, hready.content?_typeMember _ .object]

/-! ## Reading -/

namespace Run

variable {answer : (d : Demand) → d.Answer} {ev : Evaluator} {m : Machine}

/-- The result of a run that ends well. -/
def result {α : Type} [Inhabited α] (answer : (d : Demand) → d.Answer) (p : Run α) (m : Machine) : α :=
  match (outcome answer p m).1 with
  | .ok a => a
  | .error _ => default

theorem result_eq {α : Type} [Inhabited α] {p : Run α} {a : α} {m' : Machine} (h : outcome answer p m = (.ok a, m')) :
    result answer p m = a := by
  rw [result, h]

theorem outcome_getNamed {id : ObjectId} {name : String} {x : Value}
    (hc : m.heap.ownContent? id name = some (.data x)) :
    outcome answer (getNamed ev (.object id) name) m = (.ok x, m) := by
  unfold getNamed
  rw [outcome_bind_ok outcome_heap]
  show outcome answer (contentValue ev _ (m.heap.find? id name)) m = _
  rw [Heap.find?_of_own hc]
  rfl

section Members

variable {id : ObjectId} {names : List String} {values : String → Value}

variable (answer ev) in
/-- The type that an object tells: the text under the reserved name, if there is one. -/
theorem outcome_typeMember? (hs : m.heap.Shows id names values) (typeName : Option String)
    (ht : match typeName with
      | some typeName => Exported.typeMember ∈ names ∧ values Exported.typeMember = .string typeName
      | none => Exported.typeMember ∈ names → ∀ typeName, values Exported.typeMember ≠ .string typeName) :
    outcome answer (typeMember? ev (.object id)) m = (.ok typeName, m) := by
  refine outcome_tryCatch_ok ?_ _
  have hown := hs.own Exported.typeMember
  by_cases hmem : Exported.typeMember ∈ names
  · rw [if_pos hmem] at hown
    rw [outcome_bind_ok (outcome_getNamed hown)]
    cases typeName with
    | some typeName => rw [ht.2]; rfl
    | none =>
      have hother := ht hmem
      cases hv : values Exported.typeMember with
      | string typeName => exact absurd hv (hother typeName)
      | _ => rfl
  · have hnone : outcome answer (getNamed ev (.object id) Exported.typeMember) m = (.ok .undefined, m) := by
      unfold getNamed
      rw [outcome_bind_ok outcome_heap]
      show outcome answer (contentValue ev _ (m.heap.find? id _)) m = _
      rw [hs.inherited hmem]
      rfl
    rw [outcome_bind_ok hnone]
    cases typeName with
    | some typeName => exact absurd ht.1 hmem
    | none => rfl

theorem filter_typeMember {names : List String} (h : Exported.typeMember ∉ names) :
    names.filter (· != Exported.typeMember) = names :=
  List.filter_eq_self.2 fun _ hname => bne_iff_ne.2 fun heq => h (heq ▸ hname)

/-- An object is read under all its names but the one that tells the type, in some order. -/
theorem outcome_readMembers (n : Nat) (read : String → Scripting.Value) (hs : m.heap.Shows id names values)
    {typeName : Option String} (ht : outcome answer (typeMember? ev (.object id)) m = (.ok typeName, m))
    (hr : ∀ name ∈ names, name ≠ Exported.typeMember →
      outcome answer (readWithin ev n (values name)) m = (.ok (read name), m)) :
    ∃ names' : List String, names'.Perm (names.filter (· != Exported.typeMember)) ∧
      outcome answer (readWithin ev (n + 1) (.object id)) m =
        (.ok (ofMembers typeName (names'.map fun name => (name, read name))), m) := by
  refine ⟨_, hs.visible.filter _, ?_⟩
  have hread : ∀ name ∈ (m.heap.ownNames id).filter (· != Exported.typeMember),
      outcome answer (do return (name, ← readWithin ev n (← getNamed ev (.object id) name))) m =
        (.ok (name, read name), m) := by
    intro name hname
    obtain ⟨hname, hne⟩ := List.mem_filter.1 hname
    have hmem := hs.visible.mem_iff.1 hname
    have hown := hs.own name
    rw [if_pos hmem] at hown
    rw [outcome_bind_ok (outcome_getNamed hown), outcome_bind_ok (hr name hmem (by simpa using hne))]
    rfl
  rw [readWithin]
  show outcome answer (heap >>= _) m = _
  rw [outcome_bind_ok outcome_heap, hs.plain]
  show outcome answer (typeMember? ev (.object id) >>= _) m = _
  rw [outcome_bind_ok ht, outcome_bind_ok outcome_heap, outcome_bind_ok (outcome_mapM hread)]
  rfl

/-- Fields that are read under the names of a record, in any order, make a record that may come back. -/
theorem returns_ofMembers_record {shapes : Shapes} {typeName : String} {fields : List (String × Scripting.Value)}
    (hs : ¬ Assoc.contains typeName shapes = true) (hn : (fields.map Prod.fst).Nodup) {read : String → Scripting.Value}
    (hperm : names.Perm (fields.map Prod.fst)) (hf : ∀ f ∈ fields, f.2.Returns shapes (read f.1)) :
    (Scripting.Value.record typeName fields).Returns shapes
      (ofMembers (some typeName) (names.map fun name => (name, read name))) := by
  rw [ofMembers, Record.ofFields_of_nodup, Record.toValue, Value.Returns, if_neg hs]
  · refine ⟨_, rfl, _, ?_, Value.returnsFields_map hf⟩
    have hfields := (hperm.map fun name => (name, read name)).symm
    rwa [List.map_map] at hfields
  · rw [List.map_map]
    exact (List.map_id names).symm ▸ hperm.nodup_iff.2 hn

/-- Elements that are read under the texts of the keys of a map, in any order, make a map that may come
back. -/
theorem returns_ofMembers_keyed {shapes : Shapes} {type : AggregateType} {entries : List (Key × Scripting.Value)}
    (hn : (entries.map (·.1.text)).Nodup) {read : String → Scripting.Value}
    (hperm : names.Perm (entries.map (·.1.text))) (he : ∀ e ∈ entries, e.2.Returns shapes (read e.1.text)) :
    (Scripting.Value.keyed type entries).Returns shapes
      (ofMembers none (names.map fun name => (name, read name))) := by
  refine ⟨_, ?_, Value.returnsEntries_map he⟩
  -- with different keys it does not matter in which order the map is made
  have hentries := hperm.map fun name => (Key.string name, read name)
  have hkeys : (Assoc.keys (names.map fun name => (Key.string name, read name))).Nodup := by
    rw [Assoc.keys, List.map_map]
    exact (hperm.nodup_iff.2 hn).map fun a b hab => Key.string.inj hab
  rw [List.map_map] at hentries
  rw [ofMembers, List.map_map]
  exact congrArg (fun es => (⟨_, .keyed es⟩ : Aggregate).toValue) (Assoc.ofList_eq_of_perm hentries hkeys)

end Members

section Trees

variable {bound : ObjectId} {n : Nat} {shapes : Shapes}

/-- A value that is read in so many steps, and comes back as it may. -/
def ComesBack (answer : (d : Demand) → d.Answer) (ev : Evaluator) (m : Machine) (shapes : Shapes) (n : Nat)
    (v : Scripting.Value) (j : Value) : Prop :=
  ∃ w, outcome answer (readWithin ev n j) m = (.ok w, m) ∧ v.Returns shapes w

theorem comesBack_scalar {v : Scripting.Value} (ht : v.Travels shapes) {j : Value} (hv : ofScalar? v = some j) :
    ComesBack answer ev m shapes (n + 1) v j := by
  cases v with
  | void => cases hv; exact ⟨_, rfl, .inl rfl⟩
  | bool b => cases hv; exact ⟨_, rfl, .inl rfl⟩
  | string s => cases hv; exact ⟨_, rfl, .inl rfl⟩
  | int i =>
    cases hv
    refine ⟨(Number.ofInt i.toInt).toValue, ?_, .inr ⟨_, rfl, Number.rational?_ofInt ht.1 ht.2⟩⟩
    cases Number.ofInt i.toInt <;> rfl
  | float x =>
    cases hv
    refine ⟨(Number.ofBinary64 x).toValue, ?_, Number.toValue_ofBinary64 x⟩
    cases Number.ofBinary64 x <;> rfl
  | _ => cases hv

theorem comesBack_wrapped {r : Record} (hr : Assoc.contains r.typeName shapes = true) {j : Value}
    (hh : Holds m.heap bound (.wrapped r) j) : ComesBack answer ev m shapes (n + 1) r.toValue j := by
  cases hh with
  | @wrapped _ id _ _ hs =>
    refine ⟨r.toValue, ?_, ?_⟩
    · rw [readWithin]
      show outcome answer (heap >>= _) m = _
      rw [outcome_bind_ok outcome_heap, hs]
      rfl
    · rw [Record.toValue, Value.Returns, if_pos hr]

theorem comesBack_items {items : List Scripting.Value} {js : List Value} (hlen : js.length = items.length)
    (hc : ∀ v j, (v, j) ∈ items.zip js → ComesBack answer ev m shapes n v j) : ∃ ws,
      outcome answer ((js.map some).mapM fun item => readWithin ev n (item.getD .undefined)) m = (.ok ws, m) ∧
        Value.ReturnsItems shapes items ws := by
  induction items generalizing js with
  | nil =>
    cases js with
    | nil => exact ⟨[], rfl, trivial⟩
    | cons => cases hlen
  | cons v rest ih =>
    cases js with
    | nil => cases hlen
    | cons j js =>
      obtain ⟨w, hw, hr⟩ := hc v j List.mem_cons_self
      obtain ⟨ws, hws, hrs⟩ := ih (Nat.succ.inj hlen) fun v' j' hmem => hc v' j' (List.mem_cons_of_mem _ hmem)
      refine ⟨w :: ws, ?_, hr, hrs⟩
      rw [List.map_cons, List.mapM_cons]
      show outcome answer (readWithin ev n j >>= _) m = _
      rw [outcome_bind_ok hw, outcome_bind_ok hws]
      rfl

/-- An array is read as a list of what its items are read as. -/
theorem outcome_readItems {id : ObjectId} {js : List Value} {ws : List Scripting.Value}
    (hs : (m.heap.object id).sort = .array (js.map some).toArray)
    (hws : outcome answer ((js.map some).mapM fun item => readWithin ev n (item.getD .undefined)) m = (.ok ws, m)) :
    outcome answer (readWithin ev (n + 1) (.object id)) m = (.ok (.list ws), m) := by
  rw [readWithin]
  show outcome answer (heap >>= _) m = _
  rw [outcome_bind_ok outcome_heap, hs]
  show outcome answer ((js.map some).mapM _ >>= _) m = _
  rw [outcome_bind_ok hws]
  rfl

/-- The array of a list is read as a list if its items come back. -/
theorem outcome_readArray {items : List Scripting.Value} {j : Value}
    (hh : Holds m.heap bound (.array (Exported.ofItems shapes items)) j)
    (hc : ∀ v ∈ items, ∀ j, Holds m.heap bound (.ofValue shapes v) j → ComesBack answer ev m shapes n v j) :
    ∃ ws, outcome answer (readWithin ev (n + 1) j) m = (.ok (.list ws), m) ∧ Value.ReturnsItems shapes items ws := by
  rw [Exported.ofItems_eq_map] at hh
  cases hh with
  | @array _ js id _ _ hs hlen hheld =>
    have hback : ∀ v j, (v, j) ∈ items.zip js → ComesBack answer ev m shapes n v j := by
      intro v j hmem
      refine hc v (List.of_mem_zip hmem).1 j (hheld _ j ?_)
      rw [List.zip_map_left]
      exact List.mem_map.2 ⟨_, hmem, rfl⟩
    obtain ⟨ws, hws, hr⟩ := comesBack_items (hlen.trans (List.length_map _)) hback
    exact ⟨ws, outcome_readItems hs hws, hr⟩

/-- What is read under the names of an object depends on the names alone. -/
theorem exists_read {β : Type} {l : List β} (name : β → String) (value : β → Scripting.Value) {values : String → Value}
    (hc : ∀ x ∈ l, ComesBack answer ev m shapes n (value x) (values (name x))) :
    ∃ read : String → Scripting.Value, ∀ x ∈ l,
      outcome answer (readWithin ev n (values (name x))) m = (.ok (read (name x)), m) ∧
        (value x).Returns shapes (read (name x)) := by
  refine ⟨fun name => result answer (readWithin ev n (values name)) m, fun x hx => ?_⟩
  obtain ⟨w, hw, hr⟩ := hc x hx
  simp only [result_eq hw]
  exact ⟨hw, hr⟩

/-- A record without a shape comes back with its fields in some order if they come back. -/
theorem comesBack_record (hready : m.heap.Ready) {typeName : String} {fields : List (String × Scripting.Value)}
    (hs : ¬ Assoc.contains typeName shapes = true) (hn : (fields.map Prod.fst).Nodup)
    (ht : Exported.typeMember ∉ fields.map Prod.fst) {j : Value}
    (hh : Holds m.heap bound (.ofValue shapes (.record typeName fields)) j)
    (hc : ∀ f ∈ fields, ∀ j, Holds m.heap bound (.ofValue shapes f.2) j → ComesBack answer ev m shapes n f.2 j) :
    ComesBack answer ev m shapes (n + 1) (.record typeName fields) j := by
  rw [Exported.ofValue, if_neg hs] at hh
  cases hh with
  | @object _ values id _ _ ho hheld =>
    have hnames : (Exported.ofFields shapes fields ++ [(Exported.typeMember, Exported.scalar (.string typeName))]).map
        Prod.fst = fields.map Prod.fst ++ [Exported.typeMember] := by
      rw [Exported.ofFields_eq_map, List.map_append, List.map_map]
      rfl
    have hback : ∀ f ∈ fields, ComesBack answer ev m shapes n f.2 (values f.1) := by
      intro f hf
      refine hc f hf _ (hheld f.1 _ (List.mem_append_left _ ?_))
      rw [Exported.ofFields_eq_map]
      exact List.mem_map.2 ⟨f, hf, rfl⟩
    obtain ⟨read, hfield⟩ := exists_read Prod.fst Prod.snd hback
    have htold : values Exported.typeMember = .string typeName := by
      cases hheld _ _ (List.mem_append_right _ (List.mem_singleton_self _)) with
      | scalar hv => exact (Option.some.inj hv).symm
    have hshows := Heap.shows_holding hready ho
    have htype := outcome_typeMember? answer ev hshows (some typeName)
      ⟨by rw [hnames]; exact List.mem_append_right _ (List.mem_singleton_self _), htold⟩
    obtain ⟨names, hperm, hread⟩ := outcome_readMembers n read hshows htype (by
      intro name hname hne
      rw [hnames, List.mem_append, List.mem_singleton] at hname
      obtain ⟨f, hf, rfl⟩ := List.mem_map.1 (hname.resolve_right hne)
      exact (hfield f hf).1)
    have hperm : names.Perm (fields.map Prod.fst) := by
      rw [hnames, List.filter_append, filter_typeMember ht] at hperm
      simpa using hperm
    exact ⟨_, hread, returns_ofMembers_record hs hn hperm fun f hf => (hfield f hf).2⟩

/-- A map comes back with text for its keys if its elements come back. -/
theorem comesBack_keyed (hready : m.heap.Ready) {type : AggregateType} {entries : List (Key × Scripting.Value)}
    (hn : (entries.map (·.1.text)).Nodup) (ht : Exported.typeMember ∉ entries.map (·.1.text)) {j : Value}
    (hh : Holds m.heap bound (.ofValue shapes (.keyed type entries)) j)
    (hc : ∀ e ∈ entries, ∀ j, Holds m.heap bound (.ofValue shapes e.2) j → ComesBack answer ev m shapes n e.2 j) :
    ComesBack answer ev m shapes (n + 1) (.keyed type entries) j := by
  rw [Exported.ofValue] at hh
  cases hh with
  | @object _ values id _ _ ho hheld =>
    have hnames : ((Exported.sortMembers (Exported.ofEntries shapes entries)).map Prod.fst).Perm
        (entries.map (·.1.text)) := by
      refine ((List.mergeSort_perm _ _).map Prod.fst).trans ?_
      rw [Exported.ofEntries_eq_map, List.map_map]
      rfl
    have hback : ∀ e ∈ entries, ComesBack answer ev m shapes n e.2 (values e.1.text) := by
      intro e he
      refine hc e he _ (hheld e.1.text _ ?_)
      rw [Exported.sortMembers, List.mem_mergeSort, Exported.ofEntries_eq_map]
      exact List.mem_map.2 ⟨e, he, rfl⟩
    obtain ⟨read, helement⟩ := exists_read (fun e : Key × Scripting.Value => e.1.text) Prod.snd hback
    have hshows := Heap.shows_holding hready ho
    have htype := outcome_typeMember? answer ev hshows none
      fun hmem => absurd (hnames.mem_iff.1 hmem) ht
    obtain ⟨names, hperm, hread⟩ := outcome_readMembers n read hshows htype (by
      intro name hname _
      obtain ⟨e, he, rfl⟩ := List.mem_map.1 (hnames.mem_iff.1 hname)
      exact (helement e he).1)
    have hperm : names.Perm (entries.map (·.1.text)) := by
      have hkept := hperm.trans (hnames.filter _)
      rwa [filter_typeMember ht] at hkept
    exact ⟨_, hread, returns_ofMembers_keyed hn hperm fun e he => (helement e he).2⟩

end Trees

end Run

end Js

end Scripting
