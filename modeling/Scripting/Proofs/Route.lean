/-
Where the parts of a path lead. Some parts lead nowhere, some back to the place above, and the others to a place
below; above the root there is nothing but the root. From whatever place they are followed, they lead some places up
first and then some down (`foldl_follow`), so they end below the place they start from exactly if they name again
what they have left of it (`target_eq_append_iff`), and certainly if they never lead above it (`up_eq_zero_iff`).
-/
import Mathlib.Data.List.Basic
import Mathlib.Data.List.Induction

namespace Scripting

section

variable (stays back : String → Bool)

/-- The place that a part leads to from another. -/
def follow (place : List String) (part : String) : List String :=
  if back part then place.dropLast
  else if stays part then place
  else place ++ [part]

/-- Some places up, and then some down. -/
structure Route where
  up : Nat := 0
  down : List String := []

namespace Route

/-- A route that goes on with one more part. -/
def step (r : Route) (part : String) : Route :=
  if back part then
    if r.down = [] then { r with up := r.up + 1 } else { r with down := r.down.dropLast }
  else if stays part then r
  else { r with down := r.down ++ [part] }

/-- The route of the parts of a path. -/
def ofParts (parts : List String) : Route := parts.foldl (step stays back) {}

/-- The place that a route leads to from another. -/
def target (r : Route) (place : List String) : List String := place.take (place.length - r.up) ++ r.down

/-- How many parts lead back. -/
def backs (parts : List String) : Nat := parts.countP back

/-- How many parts lead to a place below. -/
def names (parts : List String) : Nat := parts.countP fun part => !back part && !stays part

variable {stays back} {r : Route} {place parts : List String} {part : String}

/-! ## Places -/

@[simp] theorem target_nil (place : List String) : target {} place = place := by
  unfold target
  rw [Nat.sub_zero, List.take_length, List.append_nil]

theorem target_step (r : Route) (place : List String) (part : String) :
    (r.step stays back part).target place = follow stays back (r.target place) part := by
  unfold step follow target
  split
  · split
    · rename_i hdown
      have hcount : min (min (place.length - r.up) place.length - 1) (place.length - r.up) = place.length - (r.up + 1) := by
        omega
      rw [hdown, List.append_nil, List.append_nil, List.dropLast_eq_take, List.length_take, List.take_take, hcount]
    · rename_i hdown
      rw [List.dropLast_append_of_ne_nil hdown]
  · split
    · rfl
    · rw [List.append_assoc]

theorem foldl_follow (parts place : List String) :
    parts.foldl (follow stays back) place = (ofParts stays back parts).target place := by
  suffices h : ∀ r : Route, parts.foldl (follow stays back) (r.target place) =
      (parts.foldl (step stays back) r).target place by simpa [ofParts] using h {}
  induction parts with
  | nil => exact fun _ => rfl
  | cons part rest ih =>
    intro r
    rw [List.foldl_cons, List.foldl_cons, ← target_step, ih]

/-- What lies behind the start of a route where it ends is what it leads down to behind what it names again. -/
theorem target_eq_append_iff {rest : List String} :
    r.target place = place ++ rest ↔ r.down = place.drop (place.length - r.up) ++ rest := by
  unfold target
  conv_lhs => rhs; rw [← List.take_append_drop (place.length - r.up) place, List.append_assoc]
  exact List.append_right_inj _

/-- What stands in the place that parts lead to stood in the start or is one of their names. -/
theorem mem_foldl_follow {name : String} (h : name ∈ parts.foldl (follow stays back) place) :
    name ∈ place ∨ name ∈ parts ∧ back name = false ∧ stays name = false := by
  induction parts generalizing place with
  | nil => exact .inl h
  | cons part rest ih =>
    rcases ih h with hplace | ⟨hrest, hname⟩
    · unfold follow at hplace
      split at hplace
      · exact .inl (List.dropLast_subset _ hplace)
      · rename_i hback
        split at hplace
        · exact .inl hplace
        · rename_i hstays
          rcases List.mem_append.1 hplace with hplace | hpart
          · exact .inl hplace
          · obtain rfl := List.mem_singleton.1 hpart
            exact .inr ⟨List.mem_cons_self, by simpa using hback, by simpa using hstays⟩
    · exact .inr ⟨List.mem_cons_of_mem _ hrest, hname⟩

/-- A route ends at its start or below exactly if it names again what it has left of it. -/
theorem prefix_target_iff : place <+: r.target place ↔ place.drop (place.length - r.up) <+: r.down := by
  constructor
  · rintro ⟨rest, h⟩
    exact ⟨rest, (target_eq_append_iff.1 h.symm).symm⟩
  · rintro ⟨rest, h⟩
    exact ⟨rest, (target_eq_append_iff.2 h.symm).symm⟩

/-! ## Routes that never lead above their start -/

theorem ofParts_append (parts : List String) (part : String) :
    ofParts stays back (parts ++ [part]) = (ofParts stays back parts).step stays back part := by
  unfold ofParts
  rw [List.foldl_append]
  rfl

variable (stays back) in
/-- What a route has gone up it has led back without leaving a place below. -/
theorem length_down (parts : List String) :
    (ofParts stays back parts).down.length + backs back parts = (ofParts stays back parts).up + names stays back parts := by
  induction parts using List.reverseRecOn with
  | nil => rfl
  | append_singleton parts part ih =>
    rw [ofParts_append]
    unfold step backs names at *
    rw [List.countP_append, List.countP_append, List.countP_singleton, List.countP_singleton]
    by_cases hb : back part = true
    · by_cases hdown : (ofParts stays back parts).down = []
      · rw [hdown, List.length_nil] at ih
        simp [hb, hdown]
        omega
      · have hpos : 0 < (ofParts stays back parts).down.length := List.length_pos_iff.2 hdown
        simp [hb, hdown]
        omega
    · by_cases hs : stays part = true
      · simp [hb, hs, ih]
      · simp [hb, hs]
        omega

variable (stays back) in
/-- A part leads further up only from the highest place that the route has come to. -/
theorem up_step (r : Route) (part : String) : (r.step stays back part).up = r.up ∨
    (r.step stays back part).up = r.up + 1 ∧ (r.step stays back part).down = [] := by
  unfold step
  split
  · split
    · rename_i hdown
      exact .inr ⟨rfl, hdown⟩
    · exact .inl rfl
  · split
    · exact .inl rfl
    · exact .inl rfl

/-- A route never leads above its start exactly if at no point more of its parts lead back than to a place below. -/
theorem up_eq_zero_iff : (ofParts stays back parts).up = 0 ↔
    ∀ front, front <+: parts → backs back front ≤ names stays back front := by
  induction parts using List.reverseRecOn with
  | nil =>
    refine iff_of_true rfl fun front h => ?_
    rw [List.prefix_nil.1 h]
    exact Nat.le_refl _
  | append_singleton parts part ih =>
    have hup := up_step stays back (ofParts stays back parts) part
    have hcount := length_down stays back (parts ++ [part])
    rw [ofParts_append] at hcount ⊢
    constructor
    · intro h front hfront
      rcases List.prefix_concat_iff.1 hfront with rfl | hfront
      · omega
      · exact ih.1 (by omega) front hfront
    · intro h
      have hstart : (ofParts stays back parts).up = 0 := ih.2 fun front hf => h front (hf.trans (List.prefix_append _ _))
      have hwhole := h _ (List.prefix_refl _)
      rcases hup with hup | ⟨hup, hdown⟩
      · exact hup.trans hstart
      · rw [hup, hdown, hstart, List.length_nil] at hcount
        omega

end Route

end

end Scripting
