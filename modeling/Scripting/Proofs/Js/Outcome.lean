/-
How a run of a script ends, when the host answers what it is asked: with a value or by an exception, and
on a machine. The laws follow the constructors of runs, so that a function that is written as a run is
opened one step at a time.
-/
import Scripting.Js.Run

namespace Scripting

/-! ## Routines -/

namespace Routine

variable {α β : Type}

instance : LawfulMonad Routine := by
  refine LawfulMonad.mk' _ ?_ (fun _ _ => rfl) ?_
  · intro α p
    induction p with
    | done a => rfl
    | ask d resume ih => exact congrArg (Routine.ask d) (funext fun r => ih r)
  · intro α β γ p f g
    induction p with
    | done a => rfl
    | ask d resume ih => exact congrArg (Routine.ask d) (funext fun r => ih r)

/-- What a routine ends with, if its host has an answer to everything. -/
def answered (answer : (d : Demand) → d.Answer) : Routine α → α
  | .done a => a
  | .ask d resume => (resume (answer d)).answered answer

theorem answered_bind (answer : (d : Demand) → d.Answer) (p : Routine α) (f : α → Routine β) :
    (p >>= f).answered answer = (f (p.answered answer)).answered answer := by
  induction p with
  | done a => rfl
  | ask d resume ih => exact ih (answer d)

end Routine

/-- A machine with another heap. -/
def Js.Machine.withHeap (m : Machine) (h : Heap) : Machine := { m with heap := h }

@[simp] theorem Js.Machine.heap_withHeap (m : Machine) (h : Heap) : (m.withHeap h).heap = h := rfl

@[simp] theorem Js.Machine.withHeap_withHeap (m : Machine) (h h' : Heap) :
    (m.withHeap h).withHeap h' = m.withHeap h' := rfl

namespace Js.Run

variable {α β : Type} (answer : (d : Demand) → d.Answer)

/-- How a run ends that starts on a machine, and on which machine. -/
def outcome (p : Run α) (m : Machine) : Except Abrupt α × Machine := (p.run.run m).answered answer

variable {answer} {p : Run α} {m m' : Machine}

/-! ## One step after another -/

theorem outcome_bind (p : Run α) (f : α → Run β) : outcome answer (p >>= f) m =
    match outcome answer p m with
    | (.ok a, m') => outcome answer (f a) m'
    | (.error e, m') => (.error e, m') := by
  refine (Routine.answered_bind answer (p.run.run m) _).trans ?_
  unfold outcome
  rcases (p.run.run m).answered answer with ⟨_ | a, m'⟩ <;> rfl

theorem outcome_bind_ok {a : α} (h : outcome answer p m = (.ok a, m')) (f : α → Run β) :
    outcome answer (p >>= f) m = outcome answer (f a) m' := by
  rw [outcome_bind, h]

theorem outcome_tryCatch_ok {a : α} (h : outcome answer p m = (.ok a, m')) (handle : Abrupt → Run α) :
    outcome answer (tryCatch p handle) m = (.ok a, m') := by
  refine (Routine.answered_bind answer (p.run.run m) _).trans ?_
  rw [show (p.run.run m).answered answer = (.ok a, m') from h]
  rfl

@[simp] theorem outcome_heap : outcome answer heap m = (.ok m.heap, m) := rfl

@[simp] theorem outcome_ask (d : Demand) : outcome answer (ask d) m = (.ok (answer d), m) := rfl

theorem outcome_changeHeap (f : Heap → Heap) :
    outcome answer (changeHeap f) m = (.ok (), m.withHeap (f m.heap)) := rfl

/-! ## Lists -/

/-- Where every step ends well and leaves the machine alone, all results are there. -/
theorem outcome_mapM {f : α → Run β} {g : α → β} {l : List α} (h : ∀ a ∈ l, outcome answer (f a) m = (.ok (g a), m)) :
    outcome answer (l.mapM f) m = (.ok (l.map g), m) := by
  induction l with
  | nil => rfl
  | cons a rest ih =>
    have hrest := ih fun a' ha => h a' (List.mem_cons_of_mem _ ha)
    rw [List.mapM_cons, outcome_bind_ok (h a List.mem_cons_self), outcome_bind_ok hrest]
    rfl

end Js.Run

end Scripting
