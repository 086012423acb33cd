/-
Records that are built field by field, and what their readers see of them. The list of fields may be read by anybody,
and not all read it alike: a record has under a name what its first field of that name holds, its tree what the last one
holds, and a script engine is given all fields. They agree where no name stands twice (`ReadersAgree`). Setting a field
keeps it so, because a name that is there is set in its place, and so does reading a tree, which sets all fields of a
record and takes the name of its type out before.
-/
import Scripting.Proofs.Bridge.Results
import Scripting.Proofs.Value.Json

namespace Scripting

namespace Record

variable {typeName name : String} {v : Value} {fields sets : List (String × Value)}

/-! ## Setting one field -/

/-- What is found after a field is set. -/
theorem getField_setField (n : String) :
    getField n (setField name v fields) = if n = name then some v else getField n fields := by
  induction fields with
  | nil =>
    by_cases hn : n = name
    · simp [setField, getField, hn]
    · simp [setField, getField, hn, Ne.symm hn]
  | cons f rest ih =>
    obtain ⟨m, w⟩ := f
    rw [setField]
    by_cases hm : m = name
    · subst hm
      by_cases hn : n = m
      · simp [getField, hn]
      · simp [getField, hn, Ne.symm hn]
    · rw [if_neg hm, getField, getField, ih]
      by_cases hn : n = name
      · subst hn
        simp [hm]
      · simp [hn]

/-- A name that is set is added at the end, unless it is there. -/
theorem names_setField : (setField name v fields).map Prod.fst =
    if name ∈ fields.map Prod.fst then fields.map Prod.fst else fields.map Prod.fst ++ [name] := by
  split
  · rename_i hmem
    induction fields with
    | nil => cases hmem
    | cons f rest ih =>
      obtain ⟨m, w⟩ := f
      rw [setField]
      by_cases hm : m = name
      · simp [hm]
      · have hrest : name ∈ rest.map Prod.fst := (List.mem_cons.1 hmem).resolve_left (Ne.symm hm)
        rw [if_neg hm, List.map_cons, List.map_cons, ih hrest]
  · rename_i hmem
    rw [setField_of_not_mem hmem, List.map_append]
    rfl

theorem mem_setField {f : String × Value} (h : f ∈ setField name v fields) : f = (name, v) ∨ f ∈ fields := by
  induction fields with
  | nil => exact .inl (List.mem_singleton.1 h)
  | cons g rest ih =>
    obtain ⟨m, w⟩ := g
    rw [setField] at h
    split at h
    · rename_i hm
      rcases List.mem_cons.1 h with rfl | h
      · exact .inl (by rw [hm])
      · exact .inr (List.mem_cons_of_mem _ h)
    · rcases List.mem_cons.1 h with rfl | h
      · exact .inr List.mem_cons_self
      · exact (ih h).imp_right (List.mem_cons_of_mem _)

/-! ## Setting one field after another -/

theorem ofFields_append (typeName : String) (sets more : List (String × Value)) :
    ofFields typeName (sets ++ more) = more.foldl (fun r f => r.set f.1 f.2) (ofFields typeName sets) :=
  List.foldl_append

theorem ofFields_append_singleton (typeName : String) (sets : List (String × Value)) (f : String × Value) :
    ofFields typeName (sets ++ [f]) = (ofFields typeName sets).set f.1 f.2 := ofFields_append typeName sets [f]

/-- The names of the fields are those that were set, in the order in which they were first. -/
theorem names_ofFields (typeName : String) (sets : List (String × Value)) :
    (ofFields typeName sets).fields.map Prod.fst = (sets.map Prod.fst).eraseDups := by
  induction sets using List.reverseRecOn with
  | nil => rfl
  | append_singleton sets f ih =>
    rw [ofFields_append_singleton, set, names_setField, ih, List.map_append, List.eraseDups_append, List.map_singleton]
    by_cases hmem : f.1 ∈ sets.map Prod.fst
    · simp [hmem, List.removeAll]
    · simp [hmem, List.removeAll, List.eraseDups_cons]

theorem nodup_ofFields (typeName : String) (sets : List (String × Value)) :
    ((ofFields typeName sets).fields.map Prod.fst).Nodup := by
  induction sets using List.reverseRecOn with
  | nil => exact List.nodup_nil
  | append_singleton sets f ih =>
    rw [ofFields_append_singleton, set, names_setField]
    split
    · exact ih
    · rename_i hmem
      refine List.nodup_append.2 ⟨ih, List.nodup_singleton _, ?_⟩
      intro n hn m hm
      rintro rfl
      obtain rfl := List.mem_singleton.1 hm
      exact hmem hn

/-- Names that are there stay where they are. -/
theorem names_prefix (typeName : String) (sets more : List (String × Value)) :
    (ofFields typeName sets).fields.map Prod.fst <+: (ofFields typeName (sets ++ more)).fields.map Prod.fst := by
  rw [names_ofFields, names_ofFields, List.map_append, List.eraseDups_append]
  exact List.prefix_append _ _

/-- Under a name there is what was set last. -/
theorem get?_ofFields (typeName name : String) (sets : List (String × Value)) :
    (ofFields typeName sets).get? name = sets.reverse.lookup name := by
  induction sets using List.reverseRecOn with
  | nil => rfl
  | append_singleton sets f ih =>
    rw [ofFields_append_singleton, get?, set, getField_setField, List.reverse_append, List.reverse_singleton,
      List.singleton_append, List.lookup_cons, ← ih]
    by_cases hn : name = f.1
    · simp [hn]
    · have hother : (name == f.1) = false := by simpa using hn
      rw [hother, if_neg hn]
      rfl

theorem forall_ne_iff : (∀ f ∈ sets, (name != f.1) = true) ↔ name ∉ sets.map Prod.fst := by
  constructor
  · intro h hmem
    obtain ⟨f, hf, rfl⟩ := List.mem_map.1 hmem
    exact bne_iff_ne.1 (h f hf) rfl
  · intro h f hf
    rw [bne_iff_ne]
    rintro rfl
    exact h (List.mem_map_of_mem hf)

/-- A value is there under a name exactly if it was set and nothing was set there behind it. -/
theorem get?_ofFields_eq_some_iff (typeName : String) : (ofFields typeName sets).get? name = some v ↔
    ∃ before after, sets = before ++ (name, v) :: after ∧ name ∉ after.map Prod.fst := by
  rw [get?_ofFields, List.lookup_eq_some_iff]
  constructor
  · rintro ⟨after, before, hsets, hafter⟩
    refine ⟨before.reverse, after.reverse, ?_, ?_⟩
    · rw [← List.reverse_reverse sets, hsets]
      simp
    · rw [List.map_reverse, List.mem_reverse]
      exact forall_ne_iff.1 hafter
  · rintro ⟨before, after, rfl, hafter⟩
    refine ⟨after.reverse, before.reverse, by simp, ?_⟩
    rw [forall_ne_iff, List.map_reverse, List.mem_reverse]
    exact hafter

theorem get?_ofFields_eq_none_iff (typeName : String) :
    (ofFields typeName sets).get? name = none ↔ name ∉ sets.map Prod.fst := by
  rw [get?_ofFields, List.lookup_eq_none_iff, forall_ne_iff, List.map_reverse, List.mem_reverse]

theorem mem_ofFields {f : String × Value} (h : f ∈ (ofFields typeName sets).fields) : f ∈ sets := by
  induction sets using List.reverseRecOn with
  | nil => cases h
  | append_singleton sets g ih =>
    rw [ofFields_append_singleton] at h
    rcases mem_setField h with rfl | h
    · simp
    · exact List.mem_append_left _ (ih h)

/-! ## Readers -/

/-- Whoever reads a record sees the same of it: no name stands twice in it, and under each name but the one that is
reserved, its tree and what a script engine gets of it where its type has no shape have what the record has there, and
nothing where it has nothing. -/
structure ReadersAgree (r : Record) : Prop where
  nodup : (r.fields.map Prod.fst).Nodup
  json : ∀ name, name ≠ Value.typeMember → r.toValue.toJson.member? name = (r.get? name).map Value.toJson
  exported : ∀ shapes, Assoc.contains r.typeName shapes = false →
    ∃ members, Exported.ofValue shapes r.toValue = .object members ∧
      ∀ name, name ≠ Exported.typeMember →
        members.filter (fun m => m.1 = name) = ((r.get? name).map fun v => (name, Exported.ofValue shapes v)).toList

theorem find?_fieldsToJson (name : String) (fields : List (String × Value)) :
    Assoc.find? name (Value.fieldsToJson fields) = (getField name fields).map Value.toJson := by
  induction fields with
  | nil => rfl
  | cons f rest ih =>
    obtain ⟨m, w⟩ := f
    rw [Value.fieldsToJson, getField]
    by_cases hm : m = name
    · rw [hm, Assoc.find?_cons_self, if_pos rfl]
      rfl
    · rw [Assoc.find?_cons_of_ne (Ne.symm hm), if_neg hm, ih]

/-- Of names that are all different, one is kept with what is found under it. -/
theorem filter_ofFields (shapes : Shapes) (h : (fields.map Prod.fst).Nodup) (name : String) :
    (Exported.ofFields shapes fields).filter (fun m => m.1 = name) =
      ((getField name fields).map fun v => (name, Exported.ofValue shapes v)).toList := by
  induction fields with
  | nil => rfl
  | cons f rest ih =>
    obtain ⟨m, w⟩ := f
    rw [List.map_cons, List.nodup_cons] at h
    rw [Exported.ofFields, getField]
    by_cases hm : m = name
    · subst hm
      -- no field behind has the name again
      have hnone : (Exported.ofFields shapes rest).filter (fun x => x.1 = m) = [] := by
        rw [Exported.ofFields_eq_map]
        apply List.filter_eq_nil_iff.2
        intro x hx
        obtain ⟨g, hg, rfl⟩ := List.mem_map.1 hx
        have hne : g.1 ≠ m := by
          rintro rfl
          exact h.1 (List.mem_map.2 ⟨g, hg, rfl⟩)
        simpa using hne
      simp [hnone]
    · simp [hm, ih h.2]

theorem readersAgree_of_nodup {r : Record} (h : (r.fields.map Prod.fst).Nodup) : r.ReadersAgree := by
  refine ⟨h, ?_, ?_⟩
  · intro name hname
    have hkeys : (Assoc.keys (Value.fieldsToJson r.fields)).Nodup := by rwa [Value.keys_fieldsToJson]
    rw [toValue, Value.toJson, Json.member?, Assoc.find?_insert_of_ne hname, Assoc.find?_ofList hkeys,
      find?_fieldsToJson]
    rfl
  · intro shapes hshapes
    refine ⟨Exported.ofFields shapes r.fields ++ [(Exported.typeMember, .scalar (.string r.typeName))], ?_, ?_⟩
    · rw [toValue, Exported.ofValue, hshapes]
      rfl
    · intro name hname
      rw [List.filter_append, filter_ofFields shapes h, get?]
      simp [Ne.symm hname]

end Record

/-! ## Records that are read from trees -/

namespace Value

/-- A record has readers that agree, and no field of the name that is reserved. -/
def IsClear (v : Value) : Prop :=
  ∀ r, v.record? = some r → r.ReadersAgree ∧ typeMember ∉ r.fields.map Prod.fst

theorem isClear_ofFields {typeName : String} {sets : List (String × Value)} (h : typeMember ∉ sets.map Prod.fst) :
    IsClear (Record.ofFields typeName sets).toValue := by
  rintro r ⟨⟩
  refine ⟨Record.readersAgree_of_nodup (Record.nodup_ofFields typeName sets), ?_⟩
  show typeMember ∉ (Record.ofFields typeName sets).fields.map Prod.fst
  rwa [Record.names_ofFields, List.mem_eraseDups]

theorem not_mem_fieldsOfJson (members : List (String × Json)) : typeMember ∉ (fieldsOfJson members).map Prod.fst := by
  rw [fieldsOfJson_eq, List.map_map]
  exact Assoc.not_mem_keys_erase typeMember members

mutual

/-- Every record inside of what is read from a tree is clear. -/
theorem ofJson_isClear : ∀ j : Json, (ofJson j).All IsClear
  | .null | .bool _ | .string _ => nofun
  | .number n => by
    rw [ofJson]
    cases n with
    | float x => nofun
    | int i =>
      rw [ofNumber]
      cases int64? i with
      | none => nofun
      | some x => nofun
  | .array items => ⟨nofun, itemsOfJson_isClear items⟩
  | .object members => by
    have hfields := fieldsOfJson_isClear members
    rw [allFields_iff] at hfields
    rw [ofJson]
    split
    · -- a record: the member that names its type is none of its fields
      refine ⟨isClear_ofFields (not_mem_fieldsOfJson members), ?_⟩
      apply allFields_iff.2
      intro f hf
      exact hfields f (Record.mem_ofFields hf)
    · refine ⟨nofun, ?_⟩
      apply allEntries_iff.2
      intro e he
      obtain ⟨f, hf, rfl⟩ := List.mem_map.1 (Assoc.mem_of_mem_ofList he)
      exact hfields f hf

theorem itemsOfJson_isClear : ∀ items : List Json, AllItems IsClear (itemsOfJson items)
  | [] => trivial
  | j :: rest => ⟨ofJson_isClear j, itemsOfJson_isClear rest⟩

theorem fieldsOfJson_isClear : ∀ members : List (String × Json), AllFields IsClear (fieldsOfJson members)
  | [] => trivial
  | (n, j) :: rest => by
    rw [fieldsOfJson]
    split
    · exact fieldsOfJson_isClear rest
    · exact ⟨ofJson_isClear j, fieldsOfJson_isClear rest⟩

end

end Value

namespace Record

/-- However the fields of a record are set one after the other, its names are those that were set, each once and in the
order in which they were first, and stay where they are whatever is set then. Under a name the record has what was set
there last, if anything was, and all its readers agree. They agree as well on every record inside of what is read from
a tree, and no such record has a field of the name that is reserved. -/
theorem has_what_was_set_last (typeName : String) (sets : List (String × Value)) :
    let r := ofFields typeName sets
    r.fields.map Prod.fst = (sets.map Prod.fst).eraseDups ∧
      (∀ more, r.fields.map Prod.fst <+: (ofFields typeName (sets ++ more)).fields.map Prod.fst) ∧
      (∀ name v, r.get? name = some v ↔
        ∃ before after, sets = before ++ (name, v) :: after ∧ name ∉ after.map Prod.fst) ∧
      (∀ name, r.get? name = none ↔ name ∉ sets.map Prod.fst) ∧
      r.ReadersAgree ∧
      ∀ j : Json, (Value.ofJson j).All Value.IsClear := by
  intro r
  refine ⟨names_ofFields typeName sets, names_prefix typeName sets, ?_, ?_, ?_, Value.ofJson_isClear⟩
  · intro name v
    exact get?_ofFields_eq_some_iff typeName
  · intro name
    exact get?_ofFields_eq_none_iff typeName
  · exact readersAgree_of_nodup (nodup_ofFields typeName sets)

end Record

end Scripting
