/-
Types that are referred to and resized. However references and sizes come one after the other, a type keeps all that
stands inside of it and the place of its declaration: a reference changes where it is used, a size the size of an
aggregate, and nothing changes anything else. Plurals and scalars refuse every size.
-/
import Scripting.ValueType.Basic

namespace Scripting

/-- What is written last counts, also where something was there before. -/
theorem getLast?_or_some {α : Type} (a : α) (l : List α) : l.getLast?.or (some a) = (a :: l).getLast? := by
  rw [List.getLast?_cons]
  cases l.getLast? <;> rfl

/-! ## Places -/

namespace Provenance

theorem origin_referenced (p : Provenance) (l : Location) : (p.referenced l).origin = p.origin.or (some l) := by
  unfold referenced
  cases h : p.origin with
  | none => rfl
  | some d => rfl

/-- Each reference stands where it was made. -/
theorem location_references (p : Provenance) (places : List Location) :
    (places.foldl referenced p).location = places.getLast?.or p.location := by
  induction places generalizing p with
  | nil => rfl
  | cons l rest ih =>
    have hl : (p.referenced l).location = some l := rfl
    rw [List.foldl_cons, ih, hl, getLast?_or_some, List.getLast?_cons, Option.some_or]

/-- Only the first reference to what has no place at all can become the place of its declaration. -/
theorem origin_references (p : Provenance) (places : List Location) :
    (places.foldl referenced p).origin = p.origin.or places.head? := by
  induction places generalizing p with
  | nil => exact Option.or_none.symm
  | cons l rest ih => rw [List.foldl_cons, ih, origin_referenced, Option.or_assoc, Option.some_or, List.head?_cons]

theorem isSome_origin_iff {p : Provenance} : p.origin.isSome = true ↔ p.location.isSome = true ∨ p.definition.isSome = true := by
  unfold origin
  cases p.definition <;> simp

end Provenance

namespace ValueType

/-! ## Changes -/

/-- What is done to a type. -/
inductive Change where
  | reference (place : Location)
  | setSize (n : UInt64)

namespace Change

def place? : Change → Option Location
  | reference l => some l
  | setSize _ => none

def size? : Change → Option UInt64
  | reference _ => none
  | setSize n => some n

end Change

/-- A type after a change; a size that it refuses leaves it as it was. -/
def changed (t : ValueType) : Change → ValueType
  | .reference l => t.reference l
  | .setSize n =>
    match t.setSize n with
    | .ok t' => t'
    | .error _ => t

/-- A type after changes, one after the other. -/
def after (t : ValueType) (changes : List Change) : ValueType := changes.foldl changed t

def isAggregate (t : ValueType) : Bool := t.aggregate?.isSome

/-- The size of an aggregate, if it has one. -/
def size? (t : ValueType) : Option UInt64 := t.aggregate? >>= (·.size)

/-- The type with another size, if it is an aggregate, and with other places of its own. All that stands inside of it
is as it was. -/
def remade (t : ValueType) (size : Option UInt64) (place : Provenance) : ValueType :=
  match t with
  | .aggregate index data _ _ => .aggregate index data size place
  | .plural element _ => .plural element place
  | t => t

section

variable (t : ValueType) (changes : List Change)

/-- Sizes are for aggregates. -/
theorem exists_setSize_iff (n : UInt64) : (∃ t', t.setSize n = .ok t') ↔ t.isAggregate = true := by
  cases t with
  | aggregate index data size place => exact iff_of_true ⟨_, rfl⟩ rfl
  | _ => exact iff_of_false (fun ⟨_, h⟩ => nomatch h) nofun

theorem changed_of_refused {t : ValueType} {n : UInt64} {e : TypeError} (h : t.setSize n = .error e) :
    t.changed (.setSize n) = t ∧ e = .immutableType t.text := by
  refine ⟨by rw [changed, h], ?_⟩
  cases t with
  | aggregate index data size place => cases h
  | _ =>
    cases h
    rfl

theorem remade_self : t.remade t.size? t.provenance = t := by
  cases t <;> rfl

theorem isAggregate_remade (size : Option UInt64) (place : Provenance) : (t.remade size place).isAggregate = t.isAggregate := by
  cases t <;> rfl

theorem size?_remade (size : Option UInt64) (place : Provenance) :
    (t.remade size place).size? = if t.isAggregate then size else none := by
  cases t <;> rfl

theorem provenance_remade (size : Option UInt64) (place : Provenance) :
    (t.remade size place).provenance = if t.isAggregate || t.isPlural then place else {} := by
  cases t <;> rfl

/-- Only aggregates and plurals have places. -/
theorem isPlaced_of_origin {t : ValueType} {d : Location} (h : t.provenance.origin = some d) :
    (t.isAggregate || t.isPlural) = true := by
  cases t with
  | aggregate index data size place => rfl
  | plural element place => rfl
  | _ => cases h

/-! ## Changes one after the other -/

/-- Of all changes the last size counts, and the references in their order. -/
theorem after_eq_remade : t.after changes = t.remade ((changes.filterMap Change.size?).getLast?.or t.size?)
    ((changes.filterMap Change.place?).foldl Provenance.referenced t.provenance) := by
  induction changes generalizing t with
  | nil => exact (remade_self t).symm
  | cons c rest ih =>
    have hfirst : t.after (c :: rest) = (t.changed c).after rest := rfl
    rw [hfirst, ih]
    cases t with
    | aggregate index data size place =>
      cases c with
      | reference l => rfl
      | setSize n =>
        have hlast : (rest.filterMap Change.size?).getLast?.or (some n) =
            (n :: rest.filterMap Change.size?).getLast?.or size := by
          rw [getLast?_or_some, List.getLast?_cons, Option.some_or]
        exact congrArg (ValueType.aggregate index data · _) hlast
    | plural element place => cases c <;> rfl
    | _ => cases c <;> rfl

/-! ## Equality -/

theorem same_refl : ∀ t : ValueType, t.same t = true
  | .void | .boolean | .int | .float | .string | .any => rfl
  | .record _ | .handle _ => beq_self_eq_true _
  | .aggregate index data size _ => by
    rw [same, same_refl index, same_refl data, beq_self_eq_true, Bool.and_self, Bool.and_self]
  | .plural element _ => by rw [same, same_refl element]

/-- Places take no part in equality. -/
theorem same_remade (size : Option UInt64) (place place' : Provenance) :
    (t.remade size place).same (t.remade size place') = true := by
  cases t with
  | aggregate index data _ _ =>
    rw [remade, remade, same, same_refl index, same_refl data, beq_self_eq_true, Bool.and_self, Bool.and_self]
  | plural element _ => rw [remade, remade, same, same_refl element]
  | _ => exact same_refl _

end

/-- After any changes a type still takes a size exactly if it was an aggregate at first, and a size that it refuses
leaves it as it is. All that stands inside of it is as it was at first, places and all, so it equals the type that it
was but for the size of an aggregate, which is the last that was set. A type that had a place keeps the place of its
declaration, and an aggregate or plural that was referred to stands where it was referred to last. -/
theorem after_keeps_declaration (t : ValueType) (changes : List Change) :
    let u := t.after changes
    (∀ n, (∃ u', u.setSize n = .ok u') ↔ t.isAggregate = true) ∧
    (∀ n e, u.setSize n = .error e → u.changed (.setSize n) = u ∧ e = .immutableType u.text) ∧
    u = t.remade u.size? u.provenance ∧
    u.same (t.remade u.size? t.provenance) = true ∧
    u.size? = (if t.isAggregate then (changes.filterMap Change.size?).getLast?.or t.size? else none) ∧
    (t.location.isSome ∨ t.provenance.definition.isSome → u.definitionLocation = t.definitionLocation) ∧
    (t.isAggregate = true ∨ t.isPlural = true →
      u.location = (changes.filterMap Change.place?).getLast?.or t.location) := by
  intro u
  have hu : u = t.remade _ _ := after_eq_remade t changes
  have hkept : u = t.remade u.size? u.provenance := by
    rw [hu, size?_remade, provenance_remade]
    cases t <;> rfl
  refine ⟨fun n => ?_, fun n e => changed_of_refused, hkept, ?_, ?_, ?_, ?_⟩
  · rw [exists_setSize_iff, hu, isAggregate_remade]
  · have hsame := same_remade t u.size? u.provenance t.provenance
    rwa [← hkept] at hsame
  · rw [hu, size?_remade]
  · intro hplace
    obtain ⟨d, hd⟩ := Option.isSome_iff_exists.1 (Provenance.isSome_origin_iff.2 hplace)
    have hplaced : (t.isAggregate || t.isPlural) = true := isPlaced_of_origin hd
    show u.provenance.origin = t.provenance.origin
    rw [hu, provenance_remade, if_pos hplaced, Provenance.origin_references, hd, Option.some_or]
  · intro hplaced
    show u.provenance.location = _
    rw [hu, provenance_remade, if_pos (Bool.or_eq_true_iff.2 hplaced), Provenance.location_references]
    rfl

end ValueType

end Scripting
