/-
What a run asks its host and is told. A dialogue is the demands of a run in their order, each with its
answer. The answers may be any at all: what is said of a run and a dialogue holds with every host, also with
one that answers a demand now in this way and now in that. A run that ends with the empty dialogue asks its
host for nothing, so there is nothing that it could wait for.
-/
import Scripting.Js.Run

namespace Scripting

/-- Demands in their order, each with its answer. -/
abbrev Dialogue := List ((d : Demand) × d.Answer)

/-! ## Routines -/

namespace Routine

variable {α β : Type}

/-- A routine ends with a value if what it asks is what a dialogue says, and is answered so. -/
inductive Ends : Routine α → Dialogue → α → Prop
  | done (a : α) : Ends (.done a) [] a
  | ask {d : Demand} {resume : d.Answer → Routine α} {r : d.Answer} {rest : Dialogue} {a : α} :
      Ends (resume r) rest a → Ends (.ask d resume) (⟨d, r⟩ :: rest) a

variable {p : Routine α} {f : α → Routine β} {said rest : Dialogue} {a : α} {b : β}

/-- A routine that asks nothing is at its end. -/
theorem Ends.eq_done (h : p.Ends [] a) : p = .done a := by
  cases h
  rfl

/-- Once a routine has come to its end, the rest of the dialogue is what goes on from there. -/
theorem Ends.bind_iff (h : p.Ends said a) : (p >>= f).Ends (said ++ rest) b ↔ (f a).Ends rest b := by
  induction h with
  | done a => exact Iff.rfl
  | @ask d resume r said a _ ih =>
    show (Routine.ask d fun r => resume r >>= f).Ends (⟨d, r⟩ :: (said ++ rest)) b ↔ _
    constructor
    · intro hb
      cases hb with
      | ask hb => exact ih.1 hb
    · intro hb
      exact .ask (ih.2 hb)

/-- The dialogue of two routines is that of the first and then that of the second. -/
theorem Ends.of_bind {dialogue : Dialogue} (h : (p >>= f).Ends dialogue b) :
    ∃ said rest a, dialogue = said ++ rest ∧ p.Ends said a ∧ (f a).Ends rest b := by
  induction p generalizing dialogue with
  | done a => exact ⟨[], dialogue, a, rfl, .done a, h⟩
  | ask d resume ih =>
    have h : (Routine.ask d fun r => resume r >>= f).Ends dialogue b := h
    cases h with
    | ask h =>
      obtain ⟨said, rest, a, rfl, hp, hf⟩ := ih _ h
      exact ⟨_, rest, a, rfl, .ask hp, hf⟩

theorem Ends.of_demand {d : Demand} {f : d.Answer → Routine β} (h : (demand d >>= f).Ends said b) :
    ∃ r rest, said = ⟨d, r⟩ :: rest ∧ (f r).Ends rest b := by
  have h : (Routine.ask d f).Ends said b := h
  cases h with
  | ask h => exact ⟨_, _, rfl, h⟩

end Routine

/-! ## Scripts -/

namespace Js.Run

variable {α β : Type}

/-- A run that starts on a machine ends with a value or by an exception, and on which machine, if what it
asks is answered as a dialogue says. -/
def Ends (p : Run α) (m : Machine) (dialogue : Dialogue) (r : Except Abrupt α) (m' : Machine) : Prop :=
  (p.run.run m).Ends dialogue (r, m')

variable {p : Run α} {f : α → Run β} {m m' m'' : Machine} {said rest : Dialogue} {a : α}

theorem ends_pure (a : α) (m : Machine) : (pure a : Run α).Ends m [] (.ok a) m := .done _

theorem ends_ask (d : Demand) (r : d.Answer) (m : Machine) : (ask d).Ends m [⟨d, r⟩] (.ok r) m := .ask (.done _)

theorem ends_heap (m : Machine) : heap.Ends m [] (.ok m.heap) m := .done _

/-- A new error is thrown, which the heap now holds. -/
theorem ends_fail_iff {sort : ErrorSort} {message : String} {r : Except Abrupt α} :
    (fail sort message : Run α).Ends m said r m' ↔
      said = [] ∧ r = .error (.thrown (.object (m.heap.allocateError sort message).1)) ∧
        m' = { m with heap := (m.heap.allocateError sort message).2 } := by
  constructor
  · intro h
    cases h
    exact ⟨rfl, rfl, rfl⟩
  · rintro ⟨rfl, rfl, rfl⟩
    exact .done _

/-- One run after another is one routine after another, unless the first ends by an exception. -/
theorem run_bind (p : Run α) (f : α → Run β) (m : Machine) : (p >>= f).run.run m = p.run.run m >>= fun x =>
    match x with
    | (.ok a, m') => (f a).run.run m'
    | (.error e, m') => .done (.error e, m') := by
  refine congrArg (p.run.run m >>= ·) (funext fun x => ?_)
  obtain ⟨_ | a, m'⟩ := x <;> rfl

theorem Ends.bind_iff (h : p.Ends m said (.ok a) m') {r : Except Abrupt β} :
    (p >>= f).Ends m (said ++ rest) r m'' ↔ (f a).Ends m' rest r m'' := by
  unfold Ends at h ⊢
  rw [run_bind, Routine.Ends.bind_iff h]

theorem heap_bind_iff {f : Heap → Run β} {r : Except Abrupt β} :
    (heap >>= f).Ends m said r m' ↔ (f m.heap).Ends m said r m' :=
  (ends_heap m).bind_iff

theorem ask_bind_iff {d : Demand} {x : d.Answer} {f : d.Answer → Run β} {r : Except Abrupt β} :
    (ask d >>= f).Ends m (⟨d, x⟩ :: said) r m' ↔ (f x).Ends m said r m' :=
  (ends_ask d x m).bind_iff

theorem Ends.bind (h : p.Ends m said (.ok a) m') {r : Except Abrupt β} (hf : (f a).Ends m' rest r m'') :
    (p >>= f).Ends m (said ++ rest) r m'' := h.bind_iff.2 hf

/-- What is thrown is thrown past all that would follow. -/
theorem Ends.bind_error {e : Abrupt} (h : p.Ends m said (.error e) m') : (p >>= f).Ends m said (.error e) m' := by
  unfold Ends at h ⊢
  rw [run_bind, ← List.append_nil said, Routine.Ends.bind_iff h]
  exact .done _

/-- What ends well is not handled. -/
theorem Ends.tryCatch_ok (h : p.Ends m said (.ok a) m') (handle : Abrupt → Run α) :
    (tryCatch p handle).Ends m said (.ok a) m' := by
  have hbind : (tryCatch p handle).run.run m = p.run.run m >>= fun x =>
      match x with
      | (.ok a, m') => .done (.ok a, m')
      | (.error e, m') => (handle e).run.run m' := by
    refine congrArg (p.run.run m >>= ·) (funext fun x => ?_)
    obtain ⟨_ | a, m'⟩ := x <;> rfl
  unfold Ends at h ⊢
  rw [hbind, ← List.append_nil said, Routine.Ends.bind_iff h]
  exact .done _

theorem Ends.of_bind {dialogue : Dialogue} {b : β} (h : (p >>= f).Ends m dialogue (.ok b) m'') :
    ∃ said rest a m', dialogue = said ++ rest ∧ p.Ends m said (.ok a) m' ∧ (f a).Ends m' rest (.ok b) m'' := by
  unfold Ends at h
  rw [run_bind] at h
  obtain ⟨said, rest, ⟨r, m'⟩, rfl, hp, hf⟩ := h.of_bind
  cases r with
  | ok a => exact ⟨said, rest, a, m', rfl, hp, hf⟩
  | error e => cases hf

end Js.Run

end Scripting
