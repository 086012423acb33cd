/-
What every script finds when it starts is ready for values. The object that new ones are below has
nothing above it, and gets no other properties than plain values under names of the language; what the
host puts into its tables does not touch it.
-/
import Scripting.Js.Globals
import Scripting.Proofs.Js.Heap

namespace Scripting.Js.Heap

/-- New objects are below one that has nothing above it, holds no getter, and tells no type. -/
structure Grounded (root : ObjectId) (h : Heap) : Prop where
  realm : h.realm.object = root
  lt : root < h.objects.size
  stored : ∃ o, h.stored? root = some o ∧ o.parent = none ∧ o.sort = .plain ∧ o.IsData ∧
    ∀ p ∈ o.properties, p.name ≠ Exported.typeMember

namespace Grounded

variable {root : ObjectId} {h : Heap}

theorem ready (hg : h.Grounded root) : h.Ready := by
  obtain ⟨hrealm, hlt, o, hs, hp, hsort, hd, hn⟩ := hg
  have ho : h.object root = o := object_of_stored hs
  have honly {a : ObjectId} (ha : h.Above a) : a = root := by
    induction ha with
    | object => exact hrealm
    | parent _ hparent ih =>
      rw [ih, ho, hp] at hparent
      cases hparent
  have hbare : (h.object root).isBare = true := by rw [ho, Object.isBare, hsort]
  constructor
  · intro a ha
    rw [honly ha]
    exact hlt
  · intro a ha
    rw [honly ha, ho, Object.isRecord, hsort]
  · intro a ha name f
    rw [honly ha]
    exact ownContent?_of_isData hbare (by rw [ho]; exact hd) name f
  · intro a ha
    have hnone : o.property? Exported.typeMember = none := by
      rw [Object.property?, List.find?_eq_none]
      intro p hp
      simpa using hn p hp
    rw [honly ha, ownContent?_of_bare hbare, ho, hnone]
    rfl

/-! ## What is put into a heap -/

theorem allocate (hg : h.Grounded root) (o : Object) : (h.allocate o).2.Grounded root := by
  obtain ⟨hrealm, hlt, o', hs, hrest⟩ := hg
  exact ⟨hrealm, Nat.lt_succ_of_lt hlt, o', (stored?_allocate_of_lt o hlt).trans hs, hrest⟩

/-- A property that holds a value, under another name or elsewhere. -/
theorem put (hg : h.Grounded root) {id : ObjectId} {p : Property} (hp : p.name ≠ Exported.typeMember ∨ id ≠ root)
    (hd : ∃ v, p.content = .data v) : (h.update id (·.put p)).Grounded root := by
  obtain ⟨hrealm, hlt, o, hs, hparent, hsort, hdata, hnames⟩ := hg
  refine ⟨hrealm, hlt, ?_⟩
  by_cases hid : id = root
  · subst hid
    refine ⟨o.put p, stored?_update_self hs _, hparent, hsort, fun q hq => ?_, fun q hq => ?_⟩
    · rcases Object.mem_putIn hq with rfl | hq
      · exact hd
      · exact hdata q hq
    · rcases Object.mem_putIn hq with rfl | hq
      · exact hp.resolve_right fun hne => hne rfl
      · exact hnames q hq
  · exact ⟨o, (stored?_update_of_ne hid _).trans hs, hparent, hsort, hdata, hnames⟩

theorem putData (hg : h.Grounded root) {id : ObjectId} {name : String} (v : Value)
    (hp : name ≠ Exported.typeMember ∨ id ≠ root) : (h.putData id name v).Grounded root :=
  hg.put hp ⟨v, rfl⟩

theorem putHidden (hg : h.Grounded root) (id : ObjectId) {name : String} (v : Value) (hn : name ≠ Exported.typeMember) :
    (h.putHidden id name v).Grounded root :=
  hg.put (.inl hn) ⟨v, rfl⟩

theorem putConstant (hg : h.Grounded root) {name : String} (v : Value) (hn : name ≠ Exported.typeMember) :
    (h.putConstant name v).Grounded root :=
  hg.put (.inl hn) ⟨v, rfl⟩

theorem putBuiltin (hg : h.Grounded root) (id : ObjectId) (name : String) (b : Builtin)
    (hn : name ≠ Exported.typeMember) : (h.putBuiltin id name b).Grounded root :=
  ((hg.allocate _).putHidden _ _ (by decide)).putHidden _ _ hn

theorem putBuiltins (hg : h.Grounded root) (id : ObjectId) (functions : List (String × Builtin))
    (hn : ∀ f ∈ functions, f.1 ≠ Exported.typeMember) : (h.putBuiltins id functions).Grounded root := by
  unfold Heap.putBuiltins
  induction functions generalizing h with
  | nil => exact hg
  | cons f rest ih =>
    exact ih (hg.putBuiltin id f.1 f.2 (hn f List.mem_cons_self)) fun f' hf => hn f' (List.mem_cons_of_mem _ hf)

theorem putConstructor (hg : h.Grounded root) (name : String) (b : Builtin) (parent : ObjectId)
    (hn : name ≠ Exported.typeMember) : (h.putConstructor name b parent).Grounded root :=
  ((((hg.allocate _).putHidden _ _ (by decide)).putHidden _ _ (by decide)).putHidden _ _ (by decide)).putHidden _ _ hn

theorem putErrorSort (hg : h.Grounded root) (sort : ErrorSort) : (h.putErrorSort sort).Grounded root := by
  have hnew := hg.allocate { parent := some (h.realm.errorParent .error) }
  have hrealm : ({ (h.allocate { parent := some (h.realm.errorParent .error) }).2 with
      realm := { h.realm with errors := h.realm.errors ++ [(sort, h.objects.size)] } } : Heap).Grounded root :=
    ⟨hnew.realm, hnew.lt, hnew.stored⟩
  exact ((hrealm.putHidden _ _ (by decide)).putHidden _ _ (by decide)).putConstructor _ _ _ (by cases sort <;> decide)

theorem putErrorSorts (hg : h.Grounded root) (sorts : List ErrorSort) :
    (sorts.foldl Heap.putErrorSort h).Grounded root := by
  induction sorts generalizing h with
  | nil => exact hg
  | cons sort rest ih => exact ih (hg.putErrorSort sort)

/-- A table may have functions of whatever names. -/
theorem putTable (hg : h.Grounded root) {name : String} (functions : List (String × Callable))
    (hn : name ≠ Exported.typeMember) : (h.putTable name functions).Grounded root := by
  have hfill : ∀ (functions : List (String × Callable)) (h1 : Heap), h1.Grounded root →
      (functions.foldl (fun h1 f => ((h1.allocateFunction f.2).2.putData h.objects.size f.1
        (.object (h1.allocateFunction f.2).1))) h1).Grounded root := by
    intro functions
    induction functions with
    | nil => exact fun _ hg => hg
    | cons f rest ih =>
      exact fun h1 hg1 => ih _ ((hg1.allocate _).putData _ (.inr (Nat.ne_of_gt hg.lt)))
  exact (hfill functions _ (hg.allocate _)).putData _ (.inl hn)

end Grounded

/-! ## The initial heap -/

theorem parents_grounded : parents.Grounded 0 := by
  have hfirst : (({} : Heap).allocate {}).2.Grounded 0 :=
    ⟨rfl, Nat.zero_lt_one, {}, stored?_allocate_self _ _, rfl, rfl, nofun, nofun⟩
  have hall := (((hfirst.allocate { parent := some 0 }).allocate { parent := some 0 }).allocate
    { parent := some 0 }).allocate { parent := some 0 }
  exact ⟨rfl, hall.lt, hall.stored⟩

theorem Grounded.withLanguage {root : ObjectId} {h : Heap} (hg : h.Grounded root) : h.withLanguage.Grounded root := by
  have hparents := (((hg.putBuiltins h.realm.object [("toString", .objectText), ("valueOf", .objectValue)]
    (by decide)).putBuiltins h.realm.function [("call", .functionCall), ("toString", .functionText)]
    (by decide)).putBuiltins h.realm.array
      [("push", .push), ("join", .join), ("map", .map), ("concat", .concat), ("toString", .arrayText)]
    (by decide)).putBuiltins h.realm.string [("split", .split)] (by decide)
  have herrors := hparents.putErrorSorts ErrorSort.all
  unfold Heap.withLanguage
  refine .putConstant (.putConstant (.putConstant (.putHidden (.putHidden (.putBuiltin (.allocate
    (.putBuiltin ?_ _ _ _ (by decide)) _) _ _ _ (by decide)) _ _ (by decide)) _ _ (by decide)) _ (by decide)) _
    (by decide)) _ (by decide)
  have hobjects (id : ObjectId) := ((herrors.putBuiltin id "toString" .errorText (by decide)).putConstructor "Object"
    .makeObject h.realm.object (by decide)).putConstructor "String" .makeString h.realm.string (by decide)
  split
  · exact (hobjects _).putBuiltin _ _ _ (by decide)
  · exact hobjects _

/-- The heap that a script starts in is ready for values, whatever the native functions are. -/
theorem initial_ready (natives : List String) : (initial natives).Ready :=
  (((parents_grounded.withLanguage.putTable _ (by decide)).putTable _ (by decide)).putTable _ (by decide)).ready

end Scripting.Js.Heap
