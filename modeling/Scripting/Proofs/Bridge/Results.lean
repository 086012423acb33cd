/-
What a script engine is handed. A result of an export or of a call holds no host object at any depth,
its scalars are scalars, and its records have shapes, then and after any further registrations. So
writing it into the engine never comes to what the engine cannot hold, and its records can be called.

The conversion lets host objects through and the search refuses them afterwards; `mem_ofValue` says
what can stand in a tree that was converted, `not_sealed_of_within` what the search leaves.
-/
import Scripting.Js.Crossing
import Scripting.Proofs.Assoc

namespace Scripting

namespace Exported

/-- A tree stands somewhere in another. -/
inductive Within (t : Exported) : Exported → Prop
  | here : Within t t
  | item {e : Exported} {items : List Exported} : Within t e → e ∈ items → Within t (.array items)
  | member {n : String} {e : Exported} {members : List (String × Exported)} : Within t e →
      (n, e) ∈ members → Within t (.object members)

/-! ## The search for host objects -/

theorem firstSealedItem?_eq_none {items : List Exported} (h : firstSealedItem? items = none) :
    ∀ e ∈ items, e.firstSealed? = none := by
  induction items with
  | nil => exact nofun
  | cons a rest ih =>
    rw [firstSealedItem?, Option.or_eq_none_iff] at h
    intro e he
    rcases List.mem_cons.1 he with rfl | he
    · exact h.1
    · exact ih h.2 e he

theorem firstSealedMember?_eq_none {members : List (String × Exported)}
    (h : firstSealedMember? members = none) : ∀ n e, (n, e) ∈ members → e.firstSealed? = none := by
  induction members with
  | nil => exact nofun
  | cons a rest ih =>
    obtain ⟨n', a⟩ := a
    rw [firstSealedMember?, Option.or_eq_none_iff] at h
    intro n e he
    rcases List.mem_cons.1 he with he | he
    · cases he; exact h.1
    · exact ih h.2 n e he

/-- Where the search finds no host object, there is none. -/
theorem not_sealed_of_within {t e : Exported} (hw : t.Within e) (h : e.firstSealed? = none) (n : String) :
    t ≠ .sealed n := by
  suffices ht : t.firstSealed? = none by
    rintro rfl
    cases ht
  induction hw with
  | here => exact h
  | item _ hm ih => exact ih (firstSealedItem?_eq_none h _ hm)
  | member _ hm ih => exact ih (firstSealedMember?_eq_none h _ _ hm)

/-! ## The conversion -/

end Exported

/-- Void, a boolean, an integer, a double or a string. -/
def Value.isScalar : Value → Bool
  | .void | .bool _ | .int _ | .float _ | .string _ => true
  | _ => false

namespace Exported

/-- What an engine can hold, looking at one node of a tree: a scalar that is one, a record that has a
shape. -/
def Holdable (shapes : Shapes) : Exported → Prop
  | .scalar v => v.isScalar = true
  | .wrapped r => Assoc.contains r.typeName shapes = true
  | .sealed _ => False
  | _ => True

variable {shapes : Shapes}

theorem ofItems_eq_map (items : List Value) : ofItems shapes items = items.map (ofValue shapes) := by
  induction items with
  | nil => rfl
  | cons v rest ih => rw [ofItems, ih, List.map_cons]

theorem ofFields_eq_map (fields : List (String × Value)) :
    ofFields shapes fields = fields.map fun f => (f.1, ofValue shapes f.2) := by
  induction fields with
  | nil => rfl
  | cons f rest ih =>
    obtain ⟨n, v⟩ := f
    rw [ofFields, ih, List.map_cons]

theorem ofEntries_eq_map (entries : List (Key × Value)) :
    ofEntries shapes entries = entries.map fun e => (e.1.text, ofValue shapes e.2) := by
  induction entries with
  | nil => rfl
  | cons e rest ih =>
    obtain ⟨k, v⟩ := e
    rw [ofEntries, ih, List.map_cons]

/-- What stands directly in a converted tree was converted, or names a type. -/
theorem ofValue_items {v : Value} {items : List Exported} (h : ofValue shapes v = .array items)
    {e : Exported} (he : e ∈ items) : ∃ v', e = ofValue shapes v' := by
  have mapped {vs : List Value} (hm : e ∈ ofItems shapes vs) : ∃ v', e = ofValue shapes v' := by
    rw [ofItems_eq_map] at hm
    obtain ⟨v', -, rfl⟩ := List.mem_map.1 hm
    exact ⟨v', rfl⟩
  cases v with
  | ordered type vs => rw [ofValue] at h; cases h; exact mapped he
  | plural type vs => rw [ofValue] at h; cases h; exact mapped he
  | record typeName fields => rw [ofValue] at h; split at h <;> cases h
  | _ => simp only [ofValue, reduceCtorEq] at h

theorem ofValue_members {v : Value} {members : List (String × Exported)}
    (h : ofValue shapes v = .object members) {n : String} {e : Exported} (he : (n, e) ∈ members) :
    (∃ v', e = ofValue shapes v') ∨ ∃ typeName, e = .scalar (.string typeName) := by
  cases v with
  | record typeName fields =>
    rw [ofValue] at h
    split at h
    · cases h
    · cases h
      rw [ofFields_eq_map] at he
      rcases List.mem_append.1 he with he | he
      · obtain ⟨f, -, hf⟩ := List.mem_map.1 he
        cases hf
        exact .inl ⟨_, rfl⟩
      · rw [List.mem_singleton] at he
        cases he
        exact .inr ⟨_, rfl⟩
  | keyed type entries =>
    rw [ofValue] at h
    cases h
    rw [sortMembers, List.mem_mergeSort, ofEntries_eq_map] at he
    obtain ⟨x, -, hx⟩ := List.mem_map.1 he
    cases hx
    exact .inl ⟨_, rfl⟩
  | _ => simp only [ofValue, reduceCtorEq] at h

theorem ofValue_holdable (v : Value) :
    (∃ n, ofValue shapes v = .sealed n) ∨ Holdable shapes (ofValue shapes v) := by
  cases v with
  | record typeName fields =>
    rw [ofValue]
    split
    · rename_i h; exact .inr h
    · exact .inr trivial
  | handle h => exact .inl ⟨_, rfl⟩
  | ordered type vs => rw [ofValue]; exact .inr trivial
  | keyed type entries => rw [ofValue]; exact .inr trivial
  | plural type vs => rw [ofValue]; exact .inr trivial
  | _ => exact .inr rfl

/-- In a converted tree everything can be held but host objects. -/
theorem holdable_of_within_ofValue {t e : Exported} (hw : t.Within e) {v : Value} (he : e = ofValue shapes v) :
    (∃ n, t = .sealed n) ∨ Holdable shapes t := by
  -- on the way down every node was converted itself, so the value changes from node to node
  induction hw generalizing v with
  | here => rw [he]; exact ofValue_holdable v
  | item _ hm ih =>
    obtain ⟨v', hv⟩ := ofValue_items he.symm hm
    exact ih hv
  | member hw hm ih =>
    rcases ofValue_members he.symm hm with ⟨v', hv⟩ | ⟨typeName, rfl⟩
    · exact ih hv
    · cases hw; exact .inr rfl

/-- An engine can hold every node of a tree. -/
def Crosses (shapes : Shapes) (e : Exported) : Prop := ∀ t, t.Within e → Holdable shapes t

end Exported

open Exported

/-! ## Results -/

theorem crosses_of_exported {shapes : Shapes} {method : String} {v : Value} {e : Exported}
    (h : shapes.exported method v = .ok e) : e.Crosses shapes := by
  unfold Shapes.exported at h
  simp only at h
  split at h
  · cases h
  · rename_i hs
    cases h
    intro t ht
    rcases holdable_of_within_ofValue ht rfl with ⟨n, hn⟩ | hh
    · exact absurd hn (not_sealed_of_within ht hs n)
    · exact hh

theorem crosses_of_call {shapes : Shapes} {method : String} {this e : Exported} {args : List Value}
    (h : shapes.call method this args = .ok e) : e.Crosses shapes := by
  unfold Shapes.call at h
  split at h
  · split at h
    · cases h
    · split at h
      · exact crosses_of_exported h
      · cases h
      · cases h
  · cases h

/-- A record that has a shape can be called, if not by every method and not always with a result. -/
theorem call_wrapped {shapes : Shapes} {r : Record} (hr : Assoc.contains r.typeName shapes = true)
    (method m : String) (args : List Value) :
    shapes.call method (.wrapped r) args ≠ .error (.notWrapped m) := by
  unfold Shapes.call
  obtain ⟨shape, hs⟩ := Option.isSome_iff_exists.1 hr
  simp only [Shapes.shapeOf?, Shapes.get?, hs]
  split
  · unfold Shapes.exported
    simp only
    split <;> nofun
  · nofun
  · nofun

/-! ## Writing results into the engine -/

namespace Js.Run

/-- Writes a scalar, with something else to do for a value that is none. -/
def writeScalarElse (onScalar : Scripting.Value → Run Value) : Scripting.Value → Run Value
  | .void => return .null
  | .bool b => return .bool b
  | .int i => return .number (.ofInt i.toInt)
  | .float x => return .number (.ofBinary64 x)
  | .string s => return .string s
  | v => onScalar v

section

variable (onScalar : Scripting.Value → Run Value) (onSealed : String → Run Value)

mutual

/-- Writes a tree, with something else to do in the two places where an engine cannot hold it. -/
def writeElse : Exported → Run Value
  | .scalar v => writeScalarElse onScalar v
  | .array items => do newArray (← writeItemsElse items).toArray
  | .object members => do
    let id ← newPlain
    writeMembersElse id members
    return .object id
  | .wrapped r => wrap r
  | .sealed typeName => onSealed typeName

def writeItemsElse : List Exported → Run (List (Option Value))
  | [] => return []
  | e :: rest => do
    let v ← writeElse e
    return some v :: (← writeItemsElse rest)

def writeMembersElse (id : ObjectId) : List (String × Exported) → Run Unit
  | [] => return ()
  | (name, e) :: rest => do
    storeNamed id name (← writeElse e)
    writeMembersElse id rest

end

variable {onScalar onSealed}

/-- At one node of a tree, the something else is what is done anyway. -/
def Agrees (onScalar : Scripting.Value → Run Value) (onSealed : String → Run Value) : Exported → Prop
  | .scalar v => writeScalarElse onScalar v = writeScalar v
  | .sealed typeName => onSealed typeName = write (.sealed typeName)
  | _ => True

mutual

theorem writeElse_eq : ∀ e : Exported, (∀ t, t.Within e → Agrees onScalar onSealed t) →
    writeElse onScalar onSealed e = write e
  | .scalar v, h => by
    rw [writeElse, write]
    exact h _ .here
  | .array items, h => by
    rw [writeElse, write, writeItemsElse_eq items fun e he t ht => h t (.item ht he)]
  | .object members, h => by
    rw [writeElse, write]
    simp only [writeMembersElse_eq members fun n e he t ht => h t (.member ht he)]
  | .wrapped r, _ => by rw [writeElse, write]
  | .sealed n, h => by
    rw [writeElse]
    exact h _ .here

theorem writeItemsElse_eq : ∀ items : List Exported,
    (∀ e ∈ items, ∀ t, t.Within e → Agrees onScalar onSealed t) →
      writeItemsElse onScalar onSealed items = writeItems items
  | [], _ => rfl
  | e :: rest, h => by
    rw [writeItemsElse, writeItems, writeElse_eq e (h e List.mem_cons_self),
      writeItemsElse_eq rest fun e' he => h e' (List.mem_cons_of_mem _ he)]

theorem writeMembersElse_eq : ∀ members : List (String × Exported),
    (∀ n e, (n, e) ∈ members → ∀ t, t.Within e → Agrees onScalar onSealed t) → ∀ id,
      writeMembersElse onScalar onSealed id members = writeMembers id members
  | [], _, _ => rfl
  | (n, e) :: rest, h, id => by
    rw [writeMembersElse, writeMembers, writeElse_eq e (h n e List.mem_cons_self),
      writeMembersElse_eq rest (fun n' e' he => h n' e' (List.mem_cons_of_mem _ he)) id]

end

/-- A tree that crosses is written the same whatever is done there. -/
theorem writeElse_of_crosses {shapes : Shapes} {e : Exported} (h : e.Crosses shapes) :
    writeElse onScalar onSealed e = write e :=
  writeElse_eq e fun t ht => by
    have hh := h t ht
    cases t with
    | scalar v =>
      cases v with
      | record | ordered | keyed | plural | handle => cases hh
      | _ => exact rfl
    | sealed n => exact hh.elim
    | _ => trivial

end

end Js.Run

/-! ## Registrations, exports and calls -/

/-- The shapes that are known and the results that were handed out so far. -/
structure Handout where
  shapes : Shapes
  results : List Exported := []

namespace Handout

inductive Act where
  | register (s : Shape)
  | handOut (name : String) (v : Value)
  /-- A call on any tree at all, so also on an earlier result or on what stands in one. -/
  | call (method : String) (this : Exported) (args : List Value)

/-- Keeps a result, if there is one. -/
def keep (h : Handout) : Except BridgeError Exported → Handout
  | .ok e => { h with results := h.results ++ [e] }
  | .error _ => h

def step (h : Handout) : Act → Handout
  | .register s => { h with shapes := h.shapes.register s }
  | .handOut name v => h.keep (h.shapes.exported name v)
  | .call method this args => h.keep (h.shapes.call method this args)

/-- All results can be held, by the shapes that are known now. -/
def Clean (h : Handout) : Prop := ∀ e ∈ h.results, e.Crosses h.shapes

theorem contains_register {shapes : Shapes} {n : String} (hn : Assoc.contains n shapes = true) (s : Shape) :
    Assoc.contains n (shapes.register s) = true := by
  unfold Shapes.register Assoc.contains at *
  rw [Assoc.find?_insert]
  split
  · rfl
  · exact hn

/-- A result stays one that can be held, whatever shapes become known. -/
theorem crosses_register {shapes : Shapes} {e : Exported} (h : e.Crosses shapes) (s : Shape) :
    e.Crosses (shapes.register s) := by
  intro t ht
  have hh := h t ht
  cases t with
  | wrapped r => exact contains_register hh s
  | _ => exact hh

theorem Clean.keep {h : Handout} (hc : h.Clean) {r : Except BridgeError Exported}
    (hr : ∀ e, r = .ok e → e.Crosses h.shapes) : (h.keep r).Clean := by
  cases r with
  | error => exact hc
  | ok e =>
    intro e' he
    rcases List.mem_append.1 he with he | he
    · exact hc e' he
    · rw [List.mem_singleton] at he
      exact he ▸ hr e rfl

theorem Clean.after {h : Handout} (hc : h.Clean) (a : Act) : (h.step a).Clean := by
  cases a with
  | register s => exact fun e he => crosses_register (hc e he) s
  | handOut name v => exact hc.keep fun e he => crosses_of_exported he
  | call method this args => exact hc.keep fun e he => crosses_of_call he

theorem Clean.after_all {h : Handout} (hc : h.Clean) (acts : List Act) : (acts.foldl step h).Clean := by
  induction acts generalizing h with
  | nil => exact hc
  | cons a acts ih => exact ih (hc.after a)

/-- After any registrations, exports and calls, no result so far holds a host object, a scalar that is
none or a record without a shape; so none of its records can fail to be one that is called, and writing
it does not depend on what is done where an engine cannot hold a tree. -/
theorem results_never_leak (shapes : Shapes) (acts : List Act) (e : Exported)
    (he : e ∈ (acts.foldl step { shapes }).results) :
    (∀ t, t.Within e →
      (∀ n, t ≠ .sealed n) ∧ (∀ v, t = .scalar v → v.isScalar = true) ∧
      ∀ r, t = .wrapped r → ((acts.foldl step { shapes }).shapes.shapeOf? r).isSome = true ∧
        ∀ method m args, (acts.foldl step { shapes }).shapes.call method t args ≠ .error (.notWrapped m)) ∧
    ∀ onScalar onSealed, Js.Run.writeElse onScalar onSealed e = Js.Run.write e := by
  have hc : ({ shapes } : Handout).Clean := nofun
  have hcross := hc.after_all acts e he
  refine ⟨fun t ht => ⟨?_, ?_, ?_⟩, fun _ _ => Js.Run.writeElse_of_crosses hcross⟩
  · rintro n rfl
    exact hcross _ ht
  · rintro v rfl
    exact hcross _ ht
  · rintro r rfl
    exact ⟨hcross _ ht, fun method m args => call_wrapped (hcross _ ht) method m args⟩

/-- A record with a shape is handed out inside of one without, and a method of it is called. -/
def errand : List Act :=
  [.register (({ name := "Point" } : Shape).accessor "x" "x"),
    .handOut "get" (.record "Box" [("at", .record "Point" [("x", .int 1)])]),
    .call "x" (.wrapped ⟨"Point", [("x", .int 1)]⟩) []]

theorem results_errand : (errand.foldl step { shapes := [] }).results =
    [.object [("at", .wrapped ⟨"Point", [("x", .int 1)]⟩), (typeMember, .scalar (.string "Box"))],
      .scalar (.int 1)] := by
  rfl

theorem errand_never_leaks : ∃ e ∈ (errand.foldl step { shapes := [] }).results,
    (Exported.wrapped ⟨"Point", [("x", .int 1)]⟩).Within e ∧ ∀ m,
      (errand.foldl step { shapes := [] }).shapes.call "x" (.wrapped ⟨"Point", [("x", .int 1)]⟩) [] ≠
        .error (.notWrapped m) := by
  have he : .object [("at", .wrapped ⟨"Point", [("x", .int 1)]⟩), (typeMember, .scalar (.string "Box"))] ∈
      (errand.foldl step { shapes := [] }).results := by
    rw [results_errand]
    exact List.mem_cons_self
  have hw := Within.member .here (List.mem_cons_self (a := ("at", .wrapped ⟨"Point", [("x", .int 1)]⟩))
    (l := [(typeMember, .scalar (.string "Box"))]))
  exact ⟨_, he, hw, fun m => (((results_never_leak [] errand _ he).1 _ hw).2.2 _ rfl).2 "x" m []⟩

end Handout

end Scripting
