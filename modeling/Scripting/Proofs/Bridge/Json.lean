/-
What an engine is handed, read as JSON. Values are made into trees for engines and into JSON trees by two
functions that know nothing of each other: the one puts the name of a record's type behind its fields and
sorts the members of a map afterwards, the other stores each member in its place. A script sees of two
members with one name the later, whatever their order; seen so, both make the same of a value that leaves
nothing behind and of which JSON can say everything.
-/
import Scripting.Proofs.Bridge.Results
import Scripting.Proofs.Value.Json

namespace Scripting

namespace Exported

/-! ## What a tree shows -/

/-- The JSON scalar that a scalar is; none for a double that is not finite. -/
def scalarJson? : Value → Option Json
  | .void => some .null
  | .bool b => some (.bool b)
  | .int i => some (.int i.toInt)
  | .float x => if x.isFinite then some (.number (.float x)) else none
  | .string s => some (.string s)
  | _ => none

mutual

/-- The JSON tree that a tree shows; none where it keeps a record with methods or a host object. Of two
members with one name the later is shown. -/
def json? : Exported → Option Json
  | .scalar v => scalarJson? v
  | .array items => (itemsJson? items).map .array
  | .object members => (membersJson? members).map Json.ofMembers
  | .wrapped _ => none
  | .sealed _ => none

def itemsJson? : List Exported → Option (List Json)
  | [] => some []
  | e :: rest => do return (← e.json?) :: (← itemsJson? rest)

def membersJson? : List (String × Exported) → Option (List (String × Json))
  | [] => some []
  | (n, e) :: rest => do return (n, ← e.json?) :: (← membersJson? rest)

end

theorem itemsJson?_cons {e : Exported} {rest : List Exported} {js : List Json} :
    itemsJson? (e :: rest) = some js ↔ ∃ j js', e.json? = some j ∧ itemsJson? rest = some js' ∧ js = j :: js' := by
  rw [itemsJson?]
  cases e.json? <;> cases itemsJson? rest <;> simp [eq_comm]

theorem membersJson?_cons {n : String} {e : Exported} {rest : List (String × Exported)} {js : List (String × Json)} :
    membersJson? ((n, e) :: rest) = some js ↔
      ∃ j js', e.json? = some j ∧ membersJson? rest = some js' ∧ js = (n, j) :: js' := by
  rw [membersJson?]
  cases e.json? <;> cases membersJson? rest <;> simp [eq_comm]

theorem membersJson?_append {front back : List (String × Exported)} {js js' : List (String × Json)}
    (hf : membersJson? front = some js) (hb : membersJson? back = some js') :
    membersJson? (front ++ back) = some (js ++ js') := by
  induction front generalizing js with
  | nil => cases hf; exact hb
  | cons m rest ih =>
    obtain ⟨n, e⟩ := m
    obtain ⟨j, js₁, he, hr, rfl⟩ := membersJson?_cons.1 hf
    exact membersJson?_cons.2 ⟨j, js₁ ++ js', he, ih hr, rfl⟩

/-- Members in another order show the same members in another order. -/
theorem membersJson?_perm {members members' : List (String × Exported)} (h : members.Perm members')
    {js : List (String × Json)} (hj : membersJson? members = some js) :
    ∃ js', membersJson? members' = some js' ∧ js.Perm js' := by
  induction h generalizing js with
  | nil => exact ⟨js, hj, .refl js⟩
  | @cons m rest rest' _ ih =>
    obtain ⟨n, e⟩ := m
    obtain ⟨j, js₁, he, hr, rfl⟩ := membersJson?_cons.1 hj
    obtain ⟨js₂, hr', hp⟩ := ih hr
    exact ⟨(n, j) :: js₂, membersJson?_cons.2 ⟨j, js₂, he, hr', rfl⟩, hp.cons _⟩
  | swap a b rest =>
    obtain ⟨n, e⟩ := a
    obtain ⟨n', e'⟩ := b
    obtain ⟨j', js₁, he', hr, rfl⟩ := membersJson?_cons.1 hj
    obtain ⟨j, js₂, he, hr', rfl⟩ := membersJson?_cons.1 hr
    have hback : membersJson? ((n', e') :: rest) = some ((n', j') :: js₂) :=
      membersJson?_cons.2 ⟨j', js₂, he', hr', rfl⟩
    exact ⟨_, membersJson?_cons.2 ⟨j, _, he, hback, rfl⟩, .swap _ _ _⟩
  | trans _ _ ih₁ ih₂ =>
    obtain ⟨js₁, h₁, hp₁⟩ := ih₁ hj
    obtain ⟨js₂, h₂, hp₂⟩ := ih₂ h₁
    exact ⟨js₂, h₂, hp₁.trans hp₂⟩

mutual

/-- A tree that shows something has no host object inside. -/
theorem firstSealed?_of_json? : ∀ {e : Exported} {j : Json}, e.json? = some j → e.firstSealed? = none
  | .scalar _, _, _ => by rw [firstSealed?]; all_goals nofun
  | .array items, _, h => by
    rw [json?, Option.map_eq_some_iff] at h
    obtain ⟨js, hjs, -⟩ := h
    rw [firstSealed?]
    exact firstSealedItem?_of_itemsJson? hjs
  | .object members, _, h => by
    rw [json?, Option.map_eq_some_iff] at h
    obtain ⟨js, hjs, -⟩ := h
    rw [firstSealed?]
    exact firstSealedMember?_of_membersJson? hjs
  | .wrapped _, _, h => by rw [json?] at h; cases h
  | .sealed _, _, h => by rw [json?] at h; cases h

theorem firstSealedItem?_of_itemsJson? : ∀ {items : List Exported} {js : List Json},
    itemsJson? items = some js → firstSealedItem? items = none
  | [], _, _ => rfl
  | e :: rest, _, h => by
    obtain ⟨j, js', he, hr, -⟩ := itemsJson?_cons.1 h
    rw [firstSealedItem?, firstSealed?_of_json? he, firstSealedItem?_of_itemsJson? hr]
    rfl

theorem firstSealedMember?_of_membersJson? : ∀ {members : List (String × Exported)} {js : List (String × Json)},
    membersJson? members = some js → firstSealedMember? members = none
  | [], _, _ => rfl
  | (n, e) :: rest, _, h => by
    obtain ⟨j, js', he, hr, -⟩ := membersJson?_cons.1 h
    rw [firstSealedMember?, firstSealed?_of_json? he, firstSealedMember?_of_membersJson? hr]
    rfl

end

end Exported

namespace Value

/-! ## Values of which nothing stays behind -/

/-- At one node of a value: a double is finite, a record has no shape, the keys of a map have different
texts, and no host object stands there. -/
def IsOpen (shapes : Shapes) : Value → Prop
  | .float x => x.isFinite = true
  | .record typeName _ => Assoc.contains typeName shapes = false
  | .keyed _ entries => (entries.map fun e => e.1.text).Nodup
  | .handle _ => False
  | _ => True

end Value

namespace Exported

variable {shapes : Shapes}

mutual

/-- The tree that an engine is handed for a value shows the tree that JSON has for it. -/
theorem json?_ofValue : ∀ v : Value, v.All (Value.IsOpen shapes) → (ofValue shapes v).json? = some v.toJson
  | .void, _ | .bool _, _ | .int _, _ | .string _, _ => rfl
  | .float x, h => by
    have hx : x.isFinite = true := h
    simp [ofValue, json?, scalarJson?, Value.toJson, hx]
  | .record typeName fields, h => by
    obtain ⟨hshape, hfields⟩ := h
    have hopen : ¬ Assoc.contains typeName shapes = true := Bool.not_eq_true _ ▸ hshape
    have htag : membersJson? [(typeMember, .scalar (.string typeName))] = some [(typeMember, .string typeName)] := rfl
    rw [ofValue, if_neg hopen, json?, membersJson?_append (membersJson?_ofFields fields hfields) htag, Value.toJson,
      -- what comes last is what is stored last
      ← Assoc.ofList_append_singleton]
    rfl
  | .ordered _ items, h | .plural _ items, h => by
    rw [ofValue, json?, itemsJson?_ofItems items h.2, Value.toJson]
    rfl
  | .keyed _ entries, h => by
    obtain ⟨hkeys, hentries⟩ := h
    have hnodup : (Assoc.keys (Value.entriesToJson entries)).Nodup := by
      rw [Value.keys_entriesToJson]
      exact hkeys
    have hsorted : (ofEntries shapes entries).Perm (sortMembers (ofEntries shapes entries)) :=
      (List.mergeSort_perm _ _).symm
    obtain ⟨js, hjs, hperm⟩ := membersJson?_perm hsorted (membersJson?_ofEntries entries hentries)
    rw [ofValue, json?, hjs, Value.toJson, Assoc.ofList_eq_of_perm hperm hnodup]
    rfl
  | .handle _, h => h.elim

theorem itemsJson?_ofItems : ∀ items : List Value, Value.AllItems (Value.IsOpen shapes) items →
    itemsJson? (ofItems shapes items) = some (Value.itemsToJson items)
  | [], _ => rfl
  | v :: rest, h => itemsJson?_cons.2 ⟨_, _, json?_ofValue v h.1, itemsJson?_ofItems rest h.2, rfl⟩

theorem membersJson?_ofFields : ∀ fields : List (String × Value), Value.AllFields (Value.IsOpen shapes) fields →
    membersJson? (ofFields shapes fields) = some (Value.fieldsToJson fields)
  | [], _ => rfl
  | (_, v) :: rest, h => membersJson?_cons.2 ⟨_, _, json?_ofValue v h.1, membersJson?_ofFields rest h.2, rfl⟩

theorem membersJson?_ofEntries : ∀ entries : List (Key × Value), Value.AllEntries (Value.IsOpen shapes) entries →
    membersJson? (ofEntries shapes entries) = some (Value.entriesToJson entries)
  | [], _ => rfl
  | (_, v) :: rest, h => membersJson?_cons.2 ⟨_, _, json?_ofValue v h.1, membersJson?_ofEntries rest h.2, rfl⟩

end

end Exported

namespace Shapes

open Exported

/-- A value that holds no host object, no double without end, no record that has a shape and no map with
two keys of one text is handed out, and read as JSON it is what JSON has for the value: also where a record
has a field twice, or one of the name under which its type is told. -/
theorem exported_shows_toJson (shapes : Shapes) (method : String) (v : Value) (h : v.All (Value.IsOpen shapes)) :
    ∃ e, shapes.exported method v = .ok e ∧ e.json? = some v.toJson := by
  have hshown := json?_ofValue v h
  refine ⟨ofValue shapes v, ?_, hshown⟩
  unfold exported
  simp only [firstSealed?_of_json? hshown]

/-- A record with a field twice and a field of the reserved name, in a map whose keys are sorted otherwise
by their texts. -/
def crate : Value :=
  .keyed (AggregateType.map .any .any) [
    (.int 10, .record "Box" [("n", .int 1), ("__type__", .bool true), ("n", .int 2)]),
    (.string "!", .plural { element := .any } [.void, .float ⟨0x3FF8000000000000⟩])]

theorem crate_shown : ∃ e, Shapes.exported [("Point", { name := "Point" })] "get" crate = .ok e ∧
    e.json? = some (.object [("!", .array [.null, .number (.float ⟨0x3FF8000000000000⟩)]),
      ("10", .object [("__type__", .string "Box"), ("n", .int 2)])]) := by
  have hopen : crate.All (Value.IsOpen [("Point", { name := "Point" })]) :=
    ⟨by unfold Value.IsOpen; decide, ⟨rfl, trivial, trivial, trivial, trivial⟩, ⟨trivial, trivial, rfl, trivial⟩, trivial⟩
  obtain ⟨e, hexported, hshown⟩ := exported_shows_toJson _ "get" crate hopen
  refine ⟨e, hexported, hshown.trans ?_⟩
  rfl

end Shapes

end Scripting
