/-
How executions grow older. An execution keeps what it was made of; once it has left a state it never
comes back to it, and a finished one stays as it is. Every change of a host keeps each execution under
its number, so the numbers that callers hold always mean the same execution.
-/
import Scripting.Proofs.Host.Quiet
import Scripting.Proofs.Assoc

namespace Scripting

/-- An execution and what it is at some later moment. -/
structure Execution.Ages (e e' : Execution) : Prop where
  same : e' = { e with state := e'.state, outcome := e'.outcome }
  created : e'.state = .created → e' = e
  finished : e.state = .finished → e' = e

namespace Execution

theorem Ages.refl (e : Execution) : e.Ages e := ⟨rfl, fun _ => rfl, fun _ => rfl⟩

theorem Ages.threadName {e e' : Execution} (h : e.Ages e') : e'.threadName = e.threadName := by
  rw [h.same]

theorem Ages.token {e e' : Execution} (h : e.Ages e') : e'.token = e.token := by
  rw [h.same]

theorem Ages.unfinished {e e' : Execution} (h : e.Ages e') (hf : e'.state ≠ .finished) :
    e.state ≠ .finished := by
  intro he
  rw [h.finished he] at hf
  exact hf he

theorem ages_running {e : Execution} (h : e.state = .created) : e.Ages { e with state := .running } :=
  ⟨rfl, fun hc => (by cases hc), fun hf => (by rw [h] at hf; cases hf)⟩

theorem ages_finish {e : Execution} (h : e.state ≠ .finished) (o : Outcome) : e.Ages (e.finish o) :=
  ⟨rfl, fun hc => (by cases hc), fun hf => absurd hf h⟩

end Execution

namespace Host

/-- Every execution of a host is still there in a later one, and has grown older. -/
def Ages (h h' : Host) : Prop :=
  ∀ id e, h.execution? id = some e → ∃ e', h'.execution? id = some e' ∧ e.Ages e'

theorem Ages.refl (h : Host) : h.Ages h := fun _ e he => ⟨e, he, .refl e⟩

theorem ages_of_eq {h h' : Host} (he : h'.executions = h.executions) : h.Ages h' := by
  intro id e hid
  exact ⟨e, by unfold execution? at hid ⊢; rw [he]; exact hid, .refl e⟩

theorem Quiet.ages {h h' : Host} (q : h.Quiet h') : h.Ages h' := ages_of_eq q.executions

theorem execution?_setExecution {h : Host} {id : ExecutionId} {e : Execution} (he : h.execution? id = some e)
    (e' : Execution) (j : ExecutionId) :
    (h.setExecution id e').execution? j = if j = id then some e' else h.execution? j := by
  unfold setExecution execution? at *
  split
  · rename_i hj
    subst hj
    rw [List.getElem?_set_self (List.getElem?_eq_some_iff.1 he).1]
  · rename_i hj
    rw [List.getElem?_set_ne (Ne.symm hj)]

theorem ages_setExecution {h : Host} {id : ExecutionId} {e e' : Execution} (he : h.execution? id = some e)
    (ha : e.Ages e') : h.Ages (h.setExecution id e') := by
  intro j x hx
  rw [execution?_setExecution he]
  by_cases hj : j = id
  · subst hj
    rw [he, Option.some.injEq] at hx
    subst hx
    exact ⟨e', by simp, ha⟩
  · exact ⟨x, by simp [hj, hx], .refl x⟩

/-! ## Starting -/

/-- What a start does: nothing, unless the execution is only created; then it runs on a thread of its
own, or is finished if no thread can be had. -/
theorem start_cases (h : Host) (id : ExecutionId) :
    ((∀ e, h.execution? id = some e → e.state ≠ .created) ∧ h.start id = (.ok false, h)) ∨
    ∃ e, h.execution? id = some e ∧ e.state = .created ∧
      ((∃ text, h.environment.spawnFailure e.threadName = some text ∧ h.start id =
          (.error ⟨e.threadName, text⟩, h.setExecution id (e.finish { failure := some text }))) ∨
        (h.environment.spawnFailure e.threadName = none ∧ h.start id = (.ok true,
          { h.setExecution id { e with state := .running } with
            threads := h.threads ++ [.body id (.going { e with state := .running }.body)] }))) := by
  unfold start
  cases he : h.execution? id with
  | none => exact .inl ⟨fun _ hx => (by cases hx), rfl⟩
  | some e =>
    cases hs : e.state with
    | created =>
      refine .inr ⟨e, rfl, hs, ?_⟩
      have h1 : e.start? = some { e with state := .running } := by unfold Execution.start?; rw [hs]
      simp only [Option.bind_eq_bind, Option.bind_some, h1, Option.map_some]
      cases hf : h.environment.spawnFailure e.threadName with
      | none => exact .inr ⟨rfl, rfl⟩
      | some text => exact .inl ⟨text, rfl, rfl⟩
    | running =>
      have h1 : e.start? = none := by unfold Execution.start?; rw [hs]
      refine .inl ⟨fun x hx => ?_, by simp [h1]⟩
      cases hx; rw [hs]; decide
    | finished =>
      have h1 : e.start? = none := by unfold Execution.start?; rw [hs]
      refine .inl ⟨fun x hx => ?_, by simp [h1]⟩
      cases hx; rw [hs]; decide

theorem ages_start (h : Host) (id : ExecutionId) : h.Ages (h.start id).2 := by
  rcases start_cases h id with ⟨-, hs⟩ | ⟨e, he, hc, ⟨text, -, hs⟩ | ⟨-, hs⟩⟩
  · rw [hs]; exact Ages.refl h
  · rw [hs]
    exact ages_setExecution he (Execution.ages_finish (by rw [hc]; decide) _)
  · rw [hs]
    exact ages_setExecution he (Execution.ages_running hc)

theorem start_registry (h : Host) (id : ExecutionId) : (h.start id).2.registry = h.registry := by
  rcases start_cases h id with ⟨-, hs⟩ | ⟨e, -, -, ⟨text, -, hs⟩ | ⟨-, hs⟩⟩ <;> rw [hs] <;> rfl

theorem start_tokens (h : Host) (id : ExecutionId) : (h.start id).2.tokens = h.tokens := by
  rcases start_cases h id with ⟨-, hs⟩ | ⟨e, -, -, ⟨text, -, hs⟩ | ⟨-, hs⟩⟩ <;> rw [hs] <;> rfl

theorem start_length (h : Host) (id : ExecutionId) :
    (h.start id).2.executions.length = h.executions.length := by
  rcases start_cases h id with ⟨-, hs⟩ | ⟨e, -, -, ⟨text, -, hs⟩ | ⟨-, hs⟩⟩ <;> rw [hs] <;>
    simp [setExecution]

/-- After a start the execution is no longer only created. -/
theorem start_not_created {h : Host} {id : ExecutionId} {e : Execution}
    (he : (h.start id).2.execution? id = some e) : e.state ≠ .created := by
  rcases start_cases h id with ⟨hn, hs⟩ | ⟨x, hx, -, ⟨text, -, hs⟩ | ⟨-, hs⟩⟩ <;> rw [hs] at he
  · exact hn e he
  · have := (execution?_setExecution hx _ id).symm.trans he
    rw [if_pos rfl] at this
    cases this; exact nofun
  · have := (execution?_setExecution hx _ id).symm.trans he
    rw [if_pos rfl] at this
    cases this; exact nofun

/-! ## Finishing -/

theorem finish_threads (h : Host) (id : ExecutionId) (ending : Ending) :
    (h.finish id ending).threads = h.threads := by
  unfold finish; split <;> rfl

/-! ## Registering -/

theorem execution?_registerExecution (h : Host) (o : Order) (unit : ExecutableUnit) (j : ExecutionId) :
    (h.registerExecution o unit).2.execution? j =
      if j = h.executions.length then
        some { threadName := o.threadName, sourceId := o.sourceId, functionName := o.functionName
               params := o.params, unit, token := h.tokens.length }
      else h.execution? j := by
  unfold registerExecution newToken execution?
  simp only
  split
  · rename_i hj; subst hj; simp
  · rename_i hj
    rcases Nat.lt_or_gt_of_ne hj with hlt | hgt
    · rw [List.getElem?_append_left hlt]
    · rw [List.getElem?_eq_none (by simp; omega), List.getElem?_eq_none (by omega)]

theorem execution?_registerExecution_of_some {h : Host} {j : ExecutionId} {e : Execution}
    (hj : h.execution? j = some e) (o : Order) (unit : ExecutableUnit) :
    (h.registerExecution o unit).2.execution? j = some e := by
  have hlt : j < h.executions.length := (List.getElem?_eq_some_iff.1 hj).1
  rw [execution?_registerExecution, if_neg (Nat.ne_of_lt hlt), hj]

theorem registered?_registerExecution (h : Host) (o : Order) (unit : ExecutableUnit) (n : String) :
    (h.registerExecution o unit).2.registered? n =
      if n = o.threadName then some h.executions.length else h.registered? n := by
  unfold registerExecution newToken registered?
  exact Assoc.find?_insert _ _ _ _

theorem registered?_registerExecution_of_ne {o : Order} {n : String} (hn : n ≠ o.threadName) (h : Host)
    (unit : ExecutableUnit) : (h.registerExecution o unit).2.registered? n = h.registered? n := by
  rw [registered?_registerExecution, if_neg hn]

theorem ages_registerExecution (h : Host) (o : Order) (unit : ExecutableUnit) :
    h.Ages (h.registerExecution o unit).2 := by
  intro id e he
  exact ⟨e, execution?_registerExecution_of_some he o unit, .refl e⟩

/-! ## What runs under a name -/

/-- A running execution that is found is the one registered. -/
theorem live?_eq_some {h : Host} {n : String} {id : ExecutionId} (hl : h.live? n = some id) :
    h.registered? n = some id ∧ ∃ e, h.execution? id = some e ∧ e.state = .running := by
  unfold live? at hl
  rw [Option.filter_eq_some_iff, Option.any_eq_true] at hl
  obtain ⟨hn, e, he, hr⟩ := hl
  exact ⟨hn, e, he, by simpa [Execution.isRunning] using hr⟩

theorem not_running_of_live? {h : Host} {n : String} {id : ExecutionId} {e : Execution} (hl : h.live? n = none)
    (hn : h.registered? n = some id) (he : h.execution? id = some e) : e.state ≠ .running := by
  intro hr
  unfold live? at hl
  rw [hn, Option.filter_eq_none_iff] at hl
  exact hl id rfl (by rw [he, Option.any_some]; simp [Execution.isRunning, hr])

end Host

end Scripting
