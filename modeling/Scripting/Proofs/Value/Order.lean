/-
Comparison of values. Two values are equal exactly if they agree as trees once the declared types of all
aggregates and plurals are taken away, maps as sets of entries; a value equals no other by accident of how its
entries came in. Equality is symmetric and transitive and fails a value only where a NaN stands in it, and the
order answers equal for equal values alone, turns with its arguments and carries over from one value to the next.
-/
import Scripting.Proofs.Number.Order
import Scripting.Proofs.Value.Aggregate

namespace Scripting

namespace Value

/-! ## Agreement of trees -/

mutual

/-- A value without the declared types of the aggregates and plurals in it. -/
def erased : Value → Value
  | .record typeName fields => .record typeName (erasedFields fields)
  | .ordered _ items => .ordered default (erasedItems items)
  | .keyed _ entries => .keyed default (erasedEntries entries)
  | .plural _ items => .plural default (erasedItems items)
  | v => v

def erasedItems : List Value → List Value
  | [] => []
  | v :: rest => v.erased :: erasedItems rest

def erasedFields : List (String × Value) → List (String × Value)
  | [] => []
  | (n, v) :: rest => (n, v.erased) :: erasedFields rest

def erasedEntries : List (Key × Value) → List (Key × Value)
  | [] => []
  | (k, v) :: rest => (k, v.erased) :: erasedEntries rest

end

mutual

/-- Two trees agree if they are the same at every node, declared types and all; doubles are by what they are worth.
Of two maps each entry of the one has one in the other, of its key and with an element that agrees, and the other
has no further keys. -/
def Agree : Value → Value → Prop
  | .float x, v' => ∃ y, .float y = v' ∧ x.same y = true
  | .record typeName fields, v' => ∃ fields', .record typeName fields' = v' ∧ AgreeFields fields fields'
  | .ordered type items, v' => ∃ items', .ordered type items' = v' ∧ AgreeItems items items'
  | .keyed type entries, v' => ∃ entries', .keyed type entries' = v' ∧ AgreeEntries entries entries' ∧
    Assoc.keys entries' ⊆ Assoc.keys entries
  | .plural type items, v' => ∃ items', .plural type items' = v' ∧ AgreeItems items items'
  | v, v' => v = v'
  termination_by structural v => v

def AgreeItems : List Value → List Value → Prop
  | [], items' => [] = items'
  | v :: rest, items' => ∃ v' rest', v' :: rest' = items' ∧ Agree v v' ∧ AgreeItems rest rest'
  termination_by structural items => items

def AgreeFields : List (String × Value) → List (String × Value) → Prop
  | [], fields' => [] = fields'
  | (n, v) :: rest, fields' => ∃ v' rest', (n, v') :: rest' = fields' ∧ Agree v v' ∧ AgreeFields rest rest'
  termination_by structural fields => fields

def AgreeEntries : List (Key × Value) → List (Key × Value) → Prop
  | [], _ => True
  | (k, v) :: rest, entries' => (∃ v', (k, v') ∈ entries' ∧ Agree v v') ∧ AgreeEntries rest entries'
  termination_by structural entries => entries

end

/-- At one node of a value: a map is one that callers come to. -/
def IsMade : Value → Prop
  | .keyed _ entries => ∃ a : Aggregate, a.Built ∧ a.elements = .keyed entries
  | _ => True

theorem erasedEntries_eq (entries : List (Key × Value)) :
    erasedEntries entries = entries.map fun e => (e.1, e.2.erased) := by
  induction entries with
  | nil => rfl
  | cons e rest ih => exact congrArg ((e.1, e.2.erased) :: ·) ih

theorem ascending_erasedEntries {entries : List (Key × Value)} :
    Assoc.Ascending (erasedEntries entries) ↔ Assoc.Ascending entries := by
  rw [erasedEntries_eq]
  exact Assoc.ascending_map erased

theorem agreeEntries_iff {entries entries' : List (Key × Value)} :
    AgreeEntries entries entries' ↔ ∀ k v, (k, v) ∈ entries → ∃ v', (k, v') ∈ entries' ∧ Agree v v' := by
  induction entries with
  | nil => simp [AgreeEntries]
  | cons e rest ih =>
    rw [AgreeEntries, ih]
    constructor
    · rintro ⟨hfirst, hrest⟩ k v hmem
      rcases List.mem_cons.1 hmem with heq | hmem
      · cases heq
        exact hfirst
      · exact hrest k v hmem
    · intro h
      exact ⟨h e.1 e.2 List.mem_cons_self, fun k v hmem => h k v (List.mem_cons_of_mem _ hmem)⟩

/-- Maps in order agree as sets of entries exactly if they agree one entry after the other. -/
theorem agreeEntries_cons {k k' : Key} {v v' : Value} {rest rest' : List (Key × Value)}
    (h : Assoc.Ascending ((k, v) :: rest)) (h' : Assoc.Ascending ((k', v') :: rest')) :
    (AgreeEntries ((k, v) :: rest) ((k', v') :: rest') ∧
        Assoc.keys ((k', v') :: rest') ⊆ Assoc.keys ((k, v) :: rest)) ↔
      (k = k' ∧ Agree v v') ∧ AgreeEntries rest rest' ∧ Assoc.keys rest' ⊆ Assoc.keys rest := by
  rw [AgreeEntries]
  constructor
  · rintro ⟨⟨⟨w, hw, hv⟩, hrest⟩, hkeys⟩
    have hk : k ∈ Assoc.keys ((k', v') :: rest') := List.mem_map_of_mem (f := Prod.fst) hw
    obtain rfl : k = k' := Assoc.first_key_eq h h' hk (hkeys List.mem_cons_self)
    -- the rest of either map is without its first key
    have hnot : k ∉ Assoc.keys rest := (List.nodup_cons.1 h.nodup).1
    have hnot' : k ∉ Assoc.keys rest' := (List.nodup_cons.1 h'.nodup).1
    refine ⟨⟨rfl, ?_⟩, ?_, ?_⟩
    · rcases List.mem_cons.1 hw with heq | hw
      · cases heq
        exact hv
      · exact absurd (List.mem_map_of_mem (f := Prod.fst) hw) hnot'
    · rw [agreeEntries_iff] at hrest ⊢
      intro l u hmem
      obtain ⟨u', hu', hagree⟩ := hrest l u hmem
      rcases List.mem_cons.1 hu' with heq | hu'
      · cases heq
        exact absurd (List.mem_map_of_mem (f := Prod.fst) hmem) hnot
      · exact ⟨u', hu', hagree⟩
    · intro l hl
      rcases List.mem_cons.1 (hkeys (List.mem_cons_of_mem _ hl)) with rfl | hl'
      · exact absurd hl hnot'
      · exact hl'
  · rintro ⟨⟨rfl, hv⟩, hrest, hkeys⟩
    refine ⟨⟨⟨v', List.mem_cons_self, hv⟩, ?_⟩, List.cons_subset_cons _ hkeys⟩
    rw [agreeEntries_iff] at hrest ⊢
    intro l u hmem
    obtain ⟨u', hu', hagree⟩ := hrest l u hmem
    exact ⟨u', List.mem_cons_of_mem _ hu', hagree⟩

mutual

/-- Equality is agreement without declared types. -/
theorem same_iff_agree : ∀ a b : Value, a.All IsMade → b.All IsMade → (a.same b = true ↔ Agree a.erased b.erased)
  | .void, b, _, _ | .bool _, b, _, _ | .int _, b, _, _ | .string _, b, _, _ | .handle _, b, _, _ => by
    cases b <;> simp [same, erased, Agree]
  | .float _, b, _, _ => by cases b <;> simp [same, erased, Agree]
  | .record _ fields, b, ha, hb => by
    cases b with
    | record _ fields' => simp [same, erased, Agree, sameFields_iff_agree fields fields' ha.2 hb.2]
    | _ => simp [same, erased, Agree]
  | .ordered _ items, b, ha, hb => by
    cases b with
    | ordered _ items' => simp [same, erased, Agree, sameItems_iff_agree items items' ha.2 hb.2]
    | _ => simp [same, erased, Agree]
  | .plural _ items, b, ha, hb => by
    cases b with
    | plural _ items' => simp [same, erased, Agree, sameItems_iff_agree items items' ha.2 hb.2]
    | _ => simp [same, erased, Agree]
  | .keyed _ entries, b, ha, hb => by
    cases b with
    | keyed _ entries' =>
      obtain ⟨⟨m, hm, hk⟩, hentries⟩ := ha
      obtain ⟨⟨m', hm', hk'⟩, hentries'⟩ := hb
      simp [same, erased, Agree,
        sameEntries_iff_agree entries entries' hentries hentries' (hm.ascending hk) (hm'.ascending hk')]
    | _ => simp [same, erased, Agree]

theorem sameItems_iff_agree : ∀ items items' : List Value, AllItems IsMade items → AllItems IsMade items' →
    (sameItems items items' = true ↔ AgreeItems (erasedItems items) (erasedItems items'))
  | [], items', _, _ => by cases items' <;> simp [sameItems, erasedItems, AgreeItems]
  | v :: rest, [], _, _ => by simp [sameItems, erasedItems, AgreeItems]
  | v :: rest, v' :: rest', h, h' => by
    simp [sameItems, erasedItems, AgreeItems, same_iff_agree v v' h.1 h'.1, sameItems_iff_agree rest rest' h.2 h'.2]

theorem sameFields_iff_agree : ∀ fields fields' : List (String × Value), AllFields IsMade fields →
    AllFields IsMade fields' →
      (sameFields fields fields' = true ↔ AgreeFields (erasedFields fields) (erasedFields fields'))
  | [], fields', _, _ => by cases fields' <;> simp [sameFields, erasedFields, AgreeFields]
  | (_, _) :: _, [], _, _ => by simp [sameFields, erasedFields, AgreeFields]
  | (n, v) :: rest, (n', v') :: rest', h, h' => by
    simp [sameFields, erasedFields, AgreeFields, same_iff_agree v v' h.1 h'.1,
      sameFields_iff_agree rest rest' h.2 h'.2, and_assoc]

theorem sameEntries_iff_agree : ∀ entries entries' : List (Key × Value), AllEntries IsMade entries →
    AllEntries IsMade entries' → Assoc.Ascending entries → Assoc.Ascending entries' →
      (sameEntries entries entries' = true ↔ AgreeEntries (erasedEntries entries) (erasedEntries entries') ∧
        Assoc.keys (erasedEntries entries') ⊆ Assoc.keys (erasedEntries entries))
  | [], entries', _, _, _, _ => by cases entries' <;> simp [sameEntries, erasedEntries, AgreeEntries, Assoc.keys]
  | (_, _) :: _, [], _, _, _, _ => by simp [sameEntries, erasedEntries, AgreeEntries]
  | (k, v) :: rest, (k', v') :: rest', h, h', ho, ho' => by
    have ih := sameEntries_iff_agree rest rest' h.2 h'.2 (Assoc.ascending_cons.1 ho).2 (Assoc.ascending_cons.1 ho').2
    have hcons := agreeEntries_cons (ascending_erasedEntries.2 ho) (ascending_erasedEntries.2 ho')
    rw [sameEntries, Bool.and_eq_true, Bool.and_eq_true, beq_iff_eq, same_iff_agree v v' h.1 h'.1, ih]
    exact hcons.symm

end

/-! ## Laws of equality -/

theorem same_float_iff {x : Binary64} {b : Value} : (Value.float x).same b = true ↔ ∃ y, b = .float y ∧ x.same y = true := by
  cases b <;> simp [same]

theorem same_record_iff {typeName : String} {fields : List (String × Value)} {b : Value} :
    (Value.record typeName fields).same b = true ↔
      ∃ fields', b = .record typeName fields' ∧ sameFields fields fields' = true := by
  cases b <;> simp [same]
  exact fun _ => eq_comm

theorem same_ordered_iff {type : AggregateType} {items : List Value} {b : Value} :
    (Value.ordered type items).same b = true ↔ ∃ type' items', b = .ordered type' items' ∧ sameItems items items' = true := by
  cases b <;> simp [same]

theorem same_keyed_iff {type : AggregateType} {entries : List (Key × Value)} {b : Value} :
    (Value.keyed type entries).same b = true ↔
      ∃ type' entries', b = .keyed type' entries' ∧ sameEntries entries entries' = true := by
  cases b <;> simp [same]

theorem same_plural_iff {type : PluralType} {items : List Value} {b : Value} :
    (Value.plural type items).same b = true ↔ ∃ type' items', b = .plural type' items' ∧ sameItems items items' = true := by
  cases b <;> simp [same]

mutual

theorem same_comm : ∀ a b : Value, a.same b = b.same a
  | .void, b | .bool _, b | .int _, b | .string _, b | .handle _, b => by cases b <;> simp [same, Bool.beq_comm]
  | .float x, b => by
    cases b with
    | float y => simp [same, Binary64.same_comm x y]
    | _ => simp [same]
  | .record _ fields, b => by
    cases b with
    | record _ fields' => simp [same, sameFields_comm fields fields', Bool.beq_comm]
    | _ => simp [same]
  | .ordered _ items, b => by
    cases b with
    | ordered _ items' => simp [same, sameItems_comm items items']
    | _ => simp [same]
  | .plural _ items, b => by
    cases b with
    | plural _ items' => simp [same, sameItems_comm items items']
    | _ => simp [same]
  | .keyed _ entries, b => by
    cases b with
    | keyed _ entries' => simp [same, sameEntries_comm entries entries']
    | _ => simp [same]

theorem sameItems_comm : ∀ items items' : List Value, sameItems items items' = sameItems items' items
  | [], items' => by cases items' <;> simp [sameItems]
  | _ :: _, [] => by simp [sameItems]
  | v :: rest, v' :: rest' => by rw [sameItems, sameItems, same_comm v v', sameItems_comm rest rest']

theorem sameFields_comm : ∀ fields fields' : List (String × Value), sameFields fields fields' = sameFields fields' fields
  | [], fields' => by cases fields' <;> simp [sameFields]
  | _ :: _, [] => by simp [sameFields]
  | (n, v) :: rest, (n', v') :: rest' => by
    rw [sameFields, sameFields, same_comm v v', sameFields_comm rest rest', Bool.beq_comm]

theorem sameEntries_comm : ∀ entries entries' : List (Key × Value),
    sameEntries entries entries' = sameEntries entries' entries
  | [], entries' => by cases entries' <;> simp [sameEntries]
  | _ :: _, [] => by simp [sameEntries]
  | (k, v) :: rest, (k', v') :: rest' => by
    rw [sameEntries, sameEntries, same_comm v v', sameEntries_comm rest rest', Bool.beq_comm]

end

mutual

theorem same_trans : ∀ {a b c : Value}, a.same b = true → b.same c = true → a.same c = true
  | .void, b, _, hab, hbc | .bool _, b, _, hab, hbc | .int _, b, _, hab, hbc | .string _, b, _, hab, hbc
  | .handle _, b, _, hab, hbc => by
    cases b <;> simp [same] at hab
    all_goals (try subst hab)
    all_goals exact hbc
  | .float x, _, _, hab, hbc => by
    obtain ⟨y, rfl, hxy⟩ := same_float_iff.1 hab
    obtain ⟨z, rfl, hyz⟩ := same_float_iff.1 hbc
    exact same_float_iff.2 ⟨z, rfl, Binary64.same_trans hxy hyz⟩
  | .record _ fields, _, _, hab, hbc => by
    obtain ⟨fields', rfl, h⟩ := same_record_iff.1 hab
    obtain ⟨fields'', rfl, h'⟩ := same_record_iff.1 hbc
    exact same_record_iff.2 ⟨fields'', rfl, sameFields_trans h h'⟩
  | .ordered _ items, _, _, hab, hbc => by
    obtain ⟨type', items', rfl, h⟩ := same_ordered_iff.1 hab
    obtain ⟨type'', items'', rfl, h'⟩ := same_ordered_iff.1 hbc
    exact same_ordered_iff.2 ⟨type'', items'', rfl, sameItems_trans h h'⟩
  | .keyed _ entries, _, _, hab, hbc => by
    obtain ⟨type', entries', rfl, h⟩ := same_keyed_iff.1 hab
    obtain ⟨type'', entries'', rfl, h'⟩ := same_keyed_iff.1 hbc
    exact same_keyed_iff.2 ⟨type'', entries'', rfl, sameEntries_trans h h'⟩
  | .plural _ items, _, _, hab, hbc => by
    obtain ⟨type', items', rfl, h⟩ := same_plural_iff.1 hab
    obtain ⟨type'', items'', rfl, h'⟩ := same_plural_iff.1 hbc
    exact same_plural_iff.2 ⟨type'', items'', rfl, sameItems_trans h h'⟩
  termination_by structural a => a

theorem sameItems_trans : ∀ {xs ys zs : List Value}, sameItems xs ys = true → sameItems ys zs = true →
    sameItems xs zs = true
  | [], [], _, _, h => h
  | v :: rest, v' :: rest', [], _, h => by simp [sameItems] at h
  | v :: rest, v' :: rest', v'' :: rest'', hab, hbc => by
    rw [sameItems, Bool.and_eq_true] at hab hbc ⊢
    exact ⟨same_trans hab.1 hbc.1, sameItems_trans hab.2 hbc.2⟩
  | [], _ :: _, _, h, _ | _ :: _, [], _, h, _ => by simp [sameItems] at h
  termination_by structural xs => xs

theorem sameFields_trans : ∀ {xs ys zs : List (String × Value)}, sameFields xs ys = true → sameFields ys zs = true →
    sameFields xs zs = true
  | [], [], _, _, h => h
  | _ :: _, _ :: _, [], _, h => by simp [sameFields] at h
  | (n, v) :: rest, (n', v') :: rest', (n'', v'') :: rest'', hab, hbc => by
    rw [sameFields, Bool.and_eq_true, Bool.and_eq_true, beq_iff_eq] at hab hbc ⊢
    exact ⟨⟨hab.1.1.trans hbc.1.1, same_trans hab.1.2 hbc.1.2⟩, sameFields_trans hab.2 hbc.2⟩
  | [], _ :: _, _, h, _ | _ :: _, [], _, h, _ => by simp [sameFields] at h
  termination_by structural xs => xs

theorem sameEntries_trans : ∀ {xs ys zs : List (Key × Value)}, sameEntries xs ys = true → sameEntries ys zs = true →
    sameEntries xs zs = true
  | [], [], _, _, h => h
  | _ :: _, _ :: _, [], _, h => by simp [sameEntries] at h
  | (k, v) :: rest, (k', v') :: rest', (k'', v'') :: rest'', hab, hbc => by
    rw [sameEntries, Bool.and_eq_true, Bool.and_eq_true, beq_iff_eq] at hab hbc ⊢
    exact ⟨⟨hab.1.1.trans hbc.1.1, same_trans hab.1.2 hbc.1.2⟩, sameEntries_trans hab.2 hbc.2⟩
  | [], _ :: _, _, h, _ | _ :: _, [], _, h, _ => by simp [sameEntries] at h
  termination_by structural xs => xs

end

/-! ## Laws of the order -/

theorem compare?_eq_iff_same {a b : Value} : a.compare? b = some .eq ↔ a.same b = true := by
  unfold compare?
  split
  · simp [same]
  · rw [same, Option.some.injEq, Std.LawfulEqCmp.compare_eq_iff_eq, beq_iff_eq]
  · rw [same, Option.some.injEq, Std.LawfulEqCmp.compare_eq_iff_eq, Int64.toInt_inj, beq_iff_eq]
  · rw [same, Binary64.same_iff_compare?]
  · rw [same, Option.some.injEq, Std.LawfulEqCmp.compare_eq_iff_eq, beq_iff_eq]
  · split <;> simp_all

/-- Values the other way round are in the other order. -/
theorem compare?_swap (a b : Value) : b.compare? a = (a.compare? b).map Ordering.swap := by
  conv_lhs => unfold compare?
  split
  · rfl
  · exact congrArg some Std.OrientedCmp.eq_swap
  · exact congrArg some Std.OrientedCmp.eq_swap
  · exact Binary64.compare?_swap _ _
  · exact congrArg some Std.OrientedCmp.eq_swap
  · rename_i hvoid hbool hint hfloat hstring
    have hother : a.compare? b = if a.same b then some .eq else none := by
      unfold compare?
      split
      · exact (hvoid rfl rfl).elim
      · exact (hbool _ _ rfl rfl).elim
      · exact (hint _ _ rfl rfl).elim
      · exact (hfloat _ _ rfl rfl).elim
      · exact (hstring _ _ rfl rfl).elim
      · rfl
    rw [hother, same_comm b a]
    split <;> rfl

/-- What is less is a scalar, and less than one of its sort. -/
theorem compare?_lt {a b : Value} (h : a.compare? b = some .lt) :
    (∃ x y, a = .bool x ∧ b = .bool y ∧ compare x y = .lt) ∨
    (∃ x y, a = .int x ∧ b = .int y ∧ compare x.toInt y.toInt = .lt) ∨
    (∃ x y, a = .float x ∧ b = .float y ∧ x.compare? y = some .lt) ∨
    ∃ x y, a = .string x ∧ b = .string y ∧ compare x y = .lt := by
  unfold compare? at h
  split at h
  · cases h
  · exact .inl ⟨_, _, rfl, rfl, Option.some.inj h⟩
  · exact .inr (.inl ⟨_, _, rfl, rfl, Option.some.inj h⟩)
  · exact .inr (.inr (.inl ⟨_, _, rfl, rfl, h⟩))
  · exact .inr (.inr (.inr ⟨_, _, rfl, rfl, Option.some.inj h⟩))
  · split at h <;> cases h

theorem compare?_trans {a b c : Value} (hab : a.compare? b = some .lt) (hbc : b.compare? c = some .lt) :
    a.compare? c = some .lt := by
  rcases compare?_lt hab with ⟨x, y, rfl, rfl, hxy⟩ | ⟨x, y, rfl, rfl, hxy⟩ | ⟨x, y, rfl, rfl, hxy⟩ | ⟨x, y, rfl, rfl, hxy⟩ <;>
    rcases compare?_lt hbc with ⟨y', z, hy, rfl, hyz⟩ | ⟨y', z, hy, rfl, hyz⟩ | ⟨y', z, hy, rfl, hyz⟩ | ⟨y', z, hy, rfl, hyz⟩ <;>
    cases hy
  · exact congrArg some (Std.TransCmp.lt_trans hxy hyz)
  · exact congrArg some (Std.TransCmp.lt_trans hxy hyz)
  · exact Binary64.compare?_trans hxy hyz
  · exact congrArg some (Std.TransCmp.lt_trans hxy hyz)

/-- Values whose maps are such as callers come to are equal exactly if they agree without declared types. Equality
is symmetric and transitive, and a value without a NaN equals itself. The order answers equal exactly for equal
values and turns with its arguments, and what is less than something less than a third value is less than that. -/
theorem compared_by_contents (a b c : Value) :
    (a.All IsMade → b.All IsMade → (a.same b = true ↔ Agree a.erased b.erased)) ∧
    (a.same b = b.same a) ∧
    (a.same b = true → b.same c = true → a.same c = true) ∧
    (a.All NotNaN → a.same a = true) ∧
    (a.compare? b = some .eq ↔ a.same b = true) ∧
    (b.compare? a = (a.compare? b).map Ordering.swap) ∧
    (a.compare? b = some .lt → b.compare? c = some .lt → a.compare? c = some .lt) :=
  ⟨same_iff_agree a b, same_comm a b, same_trans, same_self a, compare?_eq_iff_same, compare?_swap a b, compare?_trans⟩

/-- Readings under two keys, one of them a zero. -/
def readings : Aggregate :=
  .map .any .any [(.string "zero", .float ⟨0⟩), (.int 1, .plural { element := .int } [.int 7, .void])]

/-- The same readings with other declared types, stored the other way round, and with the other zero. -/
def reprint : Aggregate :=
  .map .string .float [(.int 1, .plural { element := .any } [.int 7, .void]), (.string "zero", .float ⟨0x8000000000000000⟩)]

theorem readings_reprinted : readings.toValue.same reprint.toValue = true ∧
    Agree readings.toValue.erased reprint.toValue.erased ∧
    readings.toValue.compare? reprint.toValue = some .eq ∧ readings.toValue.same readings.toValue = true ∧
    Value.compare? (.float ⟨0xBFF0000000000000⟩) (.float ⟨0x3FF0000000000000⟩) = some .lt := by
  have hreadings : readings.toValue.All IsMade := ⟨⟨readings, .map _ _ _, rfl⟩, ⟨trivial, trivial, trivial, trivial⟩, trivial, trivial⟩
  have hreprint : reprint.toValue.All IsMade := ⟨⟨reprint, .map _ _ _, rfl⟩, ⟨trivial, trivial, trivial, trivial⟩, trivial, trivial⟩
  have hnumber : readings.toValue.All NotNaN := ⟨trivial, ⟨trivial, trivial, trivial, trivial⟩, rfl, trivial⟩
  obtain ⟨hagree, -, -, hself, heq, -⟩ := compared_by_contents readings.toValue reprint.toValue readings.toValue
  have hsame : readings.toValue.same reprint.toValue = true := by decide +kernel
  have hless := (compared_by_contents (.float ⟨0xBFF0000000000000⟩) (.float ⟨0⟩) (.float ⟨0x3FF0000000000000⟩)).2.2.2.2.2.2
  exact ⟨hsame, (hagree hreadings hreprint).1 hsame, heq.2 hsame, hself hnumber, hless (by decide +kernel) (by decide +kernel)⟩

end Value

end Scripting
