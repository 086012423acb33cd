/-
Types that are written as JSON trees and read again. A part that is not there is left out of the object, so
what is read under a name is what was written under it, or nothing where nothing was; from that a type comes
back as it was, with its sizes and places at every depth.
-/
import Scripting.ValueType.Decode
import Scripting.Proofs.Assoc

namespace Scripting

namespace ValueType

section

variable {α β : Type} {x : Decoded α} {a : α}

theorem decoded_bind (h : x = .ok a) (f : α → Decoded β) : x >>= f = f a := by
  rw [h]
  rfl

theorem decoded_map (h : x = .ok a) (f : α → β) : f <$> x = .ok (f a) := by
  rw [h]
  rfl

variable {decode : Json → Decoded α} {j : Json}

theorem mapM_some_of_ok (h : decode j = .ok a) : (some j).mapM decode = .ok (some a) := by
  rw [Option.mapM_some, decoded_map h]

/-- A part that is written only where it is there is read as it was. -/
theorem decodeOptional_map {write : α → Json} (h : ∀ a, decode (write a) = .ok a) (hn : ∀ a, write a ≠ .null)
    (a : Option α) : decodeOptional decode (a.map write) = .ok a := by
  cases a with
  | none => rfl
  | some a =>
    rw [Option.map_some, decodeOptional, decoded_map (h a)]
    exact hn a

end

/-! ## Scalars and places -/

theorem decodeBounded_int {limit n : Nat} (h : n < limit) (expected : String) :
    decodeBounded limit expected (.int n) = .ok n := by
  have hrange : (0 : Int) ≤ n ∧ (n : Int) < limit := ⟨Int.natCast_nonneg n, Int.ofNat_lt.2 h⟩
  exact if_pos hrange

theorem decodeUInt32_int (n : UInt32) : decodeUInt32 (.int n.toNat) = .ok n := by
  rw [decodeUInt32, decoded_map (decodeBounded_int n.toNat_lt _)]
  exact congrArg Except.ok UInt32.ofNat_toNat

theorem decodeSize_int (n : UInt64) : decodeSize (.int n.toNat) = .ok n := by
  rw [decodeSize, decoded_map (decodeBounded_int n.toNat_lt _)]
  exact congrArg Except.ok UInt64.ofNat_toNat

theorem decodeLocation_toJson (l : Location) : decodeLocation l.toJson = .ok l := by
  obtain ⟨file, line, column⟩ := l
  rw [Location.toJson, decodeLocation.eq_def]
  simp only [Assoc.find?_cons_self, Assoc.find?_cons_of_ne (show "file" ≠ "column" by decide),
    Assoc.find?_cons_of_ne (show "line" ≠ "column" by decide), Assoc.find?_cons_of_ne (show "line" ≠ "file" by decide)]
  rw [decoded_bind (mapM_some_of_ok (decodeUInt32_int column)), decoded_bind (mapM_some_of_ok (a := file) rfl),
    decoded_bind (mapM_some_of_ok (decodeUInt32_int line))]
  rfl

theorem decodeOptional_size (size : Option UInt64) :
    decodeOptional decodeSize (size.map fun n => .int n.toNat) = .ok size :=
  decodeOptional_map decodeSize_int (fun _ => nofun) size

theorem decodeOptional_location (l : Option Location) :
    decodeOptional decodeLocation (l.map Location.toJson) = .ok l :=
  decodeOptional_map decodeLocation_toJson (fun _ => nofun) l

/-! ## Members -/

theorem decodePart_eq (name : String) (members : List (String × Json)) :
    decodePart name members = (Assoc.find? name members).mapM (decodeAt true) := by
  induction members with
  | nil => rfl
  | cons m rest ih =>
    obtain ⟨k, j⟩ := m
    rw [decodePart]
    by_cases hk : k = name
    · subst hk
      rw [if_pos rfl, Assoc.find?_cons_self, Option.mapM_some]
    · rw [if_neg hk, ih, Assoc.find?_cons_of_ne (Ne.symm hk)]

/-- A member that is written only where its part is there. -/
theorem find?_optional {α : Type} (name : String) (write : α → Json) (a : Option α) (k : String) :
    Assoc.find? k (a.map fun a => (name, write a)).toList = if k = name then a.map write else none := by
  cases a with
  | none => simp
  | some a =>
    by_cases hk : k = name
    · rw [if_pos hk, hk]
      exact Assoc.find?_cons_self name _ []
    · rw [if_neg hk]
      exact Assoc.find?_cons_of_ne hk _ []

theorem keys_optional {α : Type} (name : String) (write : α → Json) (a : Option α) :
    (Assoc.keys (a.map fun a => (name, write a)).toList).Sublist [name] := by
  cases a with
  | none => exact List.nil_sublist _
  | some a => exact .refl _

theorem find?_members (p : Provenance) (k : String) :
    Assoc.find? k p.members = if k = "definition" then p.definition.map Location.toJson
      else if k = "location" then p.location.map Location.toJson else none := by
  rw [Provenance.members, Assoc.find?_append, find?_optional, find?_optional]
  by_cases hk : k = "definition"
  · simp [hk]
  · rw [if_neg hk, if_neg hk, Option.none_or]

theorem keys_members (p : Provenance) : (Assoc.keys p.members).Sublist ["definition", "location"] := by
  rw [Provenance.members, Assoc.keys, List.map_append]
  exact (keys_optional "definition" _ _).append (keys_optional "location" _ _)

/-! ## Reading an object by its kind -/

section

variable (nested : Bool) {members : List (String × Json)} {place : Provenance}

theorem decodeKind_string {kind : String} (h : kind ∈ kindNames) : decodeKind nested (.string kind) = .ok kind := by
  rw [decodeKind, if_pos (List.contains_iff_mem.2 h)]

/-- Where the places of a type stand. -/
structure Placed (members : List (String × Json)) (place : Provenance) : Prop where
  definition : Assoc.find? "definition" members = place.definition.map Location.toJson
  location : Assoc.find? "location" members = place.location.map Location.toJson

theorem decodeAt_simple {kind : String} (hk : kind ∈ ["void", "boolean", "int", "float", "string", "any"])
    (hkind : Assoc.find? "kind" members = some (.string kind)) :
    decodeAt nested (.object members) = .ok (ofSimpleKind kind) := by
  have hknown : kind ∈ kindNames := (by decide : ["void", "boolean", "int", "float", "string", "any"] ⊆ kindNames) hk
  rw [decodeAt, hkind]
  simp only
  rw [decoded_bind (decodeKind_string nested hknown)]
  split <;> first | rfl | exact absurd hk (by decide)

theorem decodeNameMember_of_find? {field name : String} (h : Assoc.find? field members = some (.string name)) :
    decodeNameMember field members = .ok name := by
  rw [decodeNameMember, h, decoded_bind (mapM_some_of_ok (a := name) rfl)]
  rfl

theorem decodeAt_record (hkind : Assoc.find? "kind" members = some (.string "record")) {name : String}
    (hname : Assoc.find? "name" members = some (.string name)) :
    decodeAt nested (.object members) = .ok (.record name) := by
  rw [decodeAt, hkind]
  simp only
  rw [decoded_bind (decodeKind_string nested (by decide))]
  exact decoded_map (decodeNameMember_of_find? hname) _

theorem decodeAt_handle (hkind : Assoc.find? "kind" members = some (.string "handle")) {target : String}
    (htarget : Assoc.find? "target_type" members = some (.string target)) :
    decodeAt nested (.object members) = .ok (.handle target) := by
  rw [decodeAt, hkind]
  simp only
  rw [decoded_bind (decodeKind_string nested (by decide))]
  exact decoded_map (decodeNameMember_of_find? htarget) _

theorem decodeAt_aggregate (hkind : Assoc.find? "kind" members = some (.string "aggregate")) {i d : Json}
    {index data : ValueType} {size : Option UInt64} (hindex : Assoc.find? "index" members = some i)
    (hdata : Assoc.find? "data" members = some d)
    (hsize : Assoc.find? "size" members = size.map fun n => .int n.toNat) (hplace : Placed members place)
    (hi : decodeAt true i = .ok index) (hd : decodeAt true d = .ok data) :
    decodeAt nested (.object members) = .ok (.aggregate index data size place) := by
  rw [decodeAt, hkind]
  simp only
  rw [decoded_bind (decodeKind_string nested (by decide))]
  simp only [decodePart_eq]
  rw [hdata, hplace.definition, hindex, hplace.location, hsize, decoded_bind (mapM_some_of_ok hd),
    decoded_bind (decodeOptional_location _), decoded_bind (mapM_some_of_ok hi),
    decoded_bind (decodeOptional_location _), decoded_bind (decodeOptional_size size)]
  rfl

theorem decodeAt_plural (hkind : Assoc.find? "kind" members = some (.string "plural")) {e : Json}
    {element : ValueType} (helement : Assoc.find? "element" members = some e) (hplace : Placed members place)
    (he : decodeAt true e = .ok element) : decodeAt nested (.object members) = .ok (.plural element place) := by
  rw [decodeAt, hkind]
  simp only
  rw [decoded_bind (decodeKind_string nested (by decide))]
  simp only [decodePart_eq]
  rw [hplace.definition, helement, hplace.location, decoded_bind (decodeOptional_location _),
    decoded_bind (mapM_some_of_ok he), decoded_bind (decodeOptional_location _)]
  rfl

end

/-! ## Types there and back -/

section

variable {kind : String} {members : List (String × Json)}

theorem find?_kind (hn : ("kind" :: Assoc.keys members).Nodup) :
    Assoc.find? "kind" (Assoc.ofList (("kind", Json.string kind) :: members)) = some (.string kind) :=
  (Assoc.find?_ofList (l := ("kind", Json.string kind) :: members) hn "kind").trans (Assoc.find?_cons_self ..)

/-- Beside the kind the members stand as they were given. -/
theorem find?_part (hn : ("kind" :: Assoc.keys members).Nodup) {k : String} (hk : k ≠ "kind") {r : Option Json}
    (hr : Assoc.find? k members = r) : Assoc.find? k (Assoc.ofList (("kind", Json.string kind) :: members)) = r :=
  (Assoc.find?_ofList (l := ("kind", Json.string kind) :: members) hn k).trans ((Assoc.find?_cons_of_ne hk ..).trans hr)

end

/-- What is written of a type is read as that type, inside another or not. -/
theorem decodeAt_toJson : ∀ (t : ValueType) (nested : Bool), decodeAt nested t.toJson = .ok t
  | .void, nested | .boolean, nested | .int, nested | .float, nested | .string, nested | .any, nested =>
    decodeAt_simple nested (by decide) (find?_kind (by decide))
  | .record name, nested => by
    have hn : ("kind" :: Assoc.keys [("name", Json.string name)]).Nodup := by simp [Assoc.keys]
    exact decodeAt_record nested (find?_kind hn) (find?_part hn (by decide) (Assoc.find?_cons_self ..))
  | .handle target, nested => by
    have hn : ("kind" :: Assoc.keys [("target_type", Json.string target)]).Nodup := by simp [Assoc.keys]
    exact decodeAt_handle nested (find?_kind hn) (find?_part hn (by decide) (Assoc.find?_cons_self ..))
  | .aggregate index data size place, nested => by
    rw [toJson]
    generalize hm : [("index", index.toJson), ("data", data.toJson)] ++
      (size.map fun n => ("size", Json.int n.toNat)).toList ++ place.members = members
    have hn : ("kind" :: Assoc.keys members).Nodup := by
      have hsub : (Assoc.keys members).Sublist ["index", "data", "size", "definition", "location"] := by
        rw [← hm, Assoc.keys, List.map_append, List.map_append]
        exact ((List.Sublist.refl ["index", "data"]).append (keys_optional "size" _ size)).append (keys_members place)
      exact List.Nodup.sublist (hsub.cons_cons "kind") (by decide)
    have hfound (k : String) : Assoc.find? k members =
        ((Assoc.find? k [("index", index.toJson), ("data", data.toJson)]).or
          (if k = "size" then size.map fun n => .int n.toNat else none)).or (Assoc.find? k place.members) := by
      rw [← hm, Assoc.find?_append, Assoc.find?_append, find?_optional]
    have hindex : Assoc.find? "index" members = some index.toJson := by simp [hfound, Assoc.find?]
    have hdata : Assoc.find? "data" members = some data.toJson := by simp [hfound, Assoc.find?]
    have hsize : Assoc.find? "size" members = size.map fun n => .int n.toNat := by
      simp [hfound, Assoc.find?, find?_members]
    have hdefinition : Assoc.find? "definition" members = place.definition.map Location.toJson := by
      simp [hfound, Assoc.find?, find?_members]
    have hlocation : Assoc.find? "location" members = place.location.map Location.toJson := by
      simp [hfound, Assoc.find?, find?_members]
    exact decodeAt_aggregate nested (find?_kind hn) (find?_part hn (by decide) hindex) (find?_part hn (by decide) hdata)
      (find?_part hn (by decide) hsize) ⟨find?_part hn (by decide) hdefinition, find?_part hn (by decide) hlocation⟩
      (decodeAt_toJson index true) (decodeAt_toJson data true)
  | .plural element place, nested => by
    rw [toJson]
    have hn : ("kind" :: Assoc.keys (("element", element.toJson) :: place.members)).Nodup :=
      List.Nodup.sublist (((keys_members place).cons_cons "element").cons_cons "kind") (by decide)
    have hbehind {k : String} (hk : k ≠ "element") :
        Assoc.find? k (("element", element.toJson) :: place.members) = Assoc.find? k place.members :=
      Assoc.find?_cons_of_ne hk _ _
    have hdefinition := (hbehind (by decide)).trans (find?_members place "definition")
    have hlocation := (hbehind (by decide)).trans (find?_members place "location")
    exact decodeAt_plural nested (find?_kind hn) (find?_part hn (by decide) (Assoc.find?_cons_self ..))
      ⟨find?_part hn (by decide) hdefinition, find?_part hn (by decide) hlocation⟩ (decodeAt_toJson element true)

/-- A type that is written as a JSON tree and read again is the same type: of its kind and with its names,
sizes and places at every depth, also with the places, which equality of types ignores. -/
theorem decode_of_trip (t : ValueType) : decode t.toJson = .ok t := decodeAt_toJson t false

end ValueType

end Scripting
