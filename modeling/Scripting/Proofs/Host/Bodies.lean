/-
Bodies and the executions they run for. Whatever happens, a thread that runs a body runs it for an execution
that was started before (`Manned`); so nothing that happens without anybody's asking touches an execution
that is only created.
-/
import Scripting.Proofs.Host.Course

namespace Scripting.Host

/-- An execution is no longer only created. -/
def HasStarted (h : Host) (id : ExecutionId) : Prop := ∃ e, h.execution? id = some e ∧ e.state ≠ .created

/-- Every body runs for an execution that was started. -/
def Manned (h : Host) : Prop :=
  ∀ (i : ThreadId) (id : ExecutionId) (work : Activity Ending), h.threads[i]? = some (.body id work) → h.HasStarted id

theorem manned_fresh {h : Host} (hf : h.Fresh) : h.Manned := by
  intro i id work hi
  rw [hf.threads] at hi
  cases hi

section

variable {h k : Host} {ev : Event} {f : Fulfilment} {p : Fulfilment.Phase}

/-- An execution that was started stays one. -/
theorem Onward.started (ho : h.Onward k) {id : ExecutionId} (hs : h.HasStarted id) : k.HasStarted id := by
  obtain ⟨e, he, hs⟩ := hs
  obtain ⟨e', he', -⟩ := ho.newer he
  obtain ⟨e0, h0, -, -, hc, -⟩ := ho.older id e' he'
  rw [he] at h0
  cases h0
  exact ⟨e', he', fun hce => hs (hc hce)⟩

/-! ## What is kept -/

theorem Manned.append (hm : h.Manned) {new : List HostThread} (ht : k.threads = h.threads ++ new)
    (hold : ∀ id, h.HasStarted id → k.HasStarted id) (hnew : ∀ id work, .body id work ∈ new → k.HasStarted id) :
    k.Manned := by
  intro i id work hi
  rw [ht] at hi
  rcases Nat.lt_or_ge i h.threads.length with hlt | hge
  · rw [List.getElem?_append_left hlt] at hi
    exact hold id (hm i id work hi)
  · rw [List.getElem?_append_right hge] at hi
    exact hnew id work (List.mem_of_getElem? hi)

theorem Manned.same (hm : h.Manned) (ht : k.threads = h.threads) (he : k.executions = h.executions) : k.Manned := by
  unfold Manned HasStarted execution? at hm ⊢
  rw [ht, he]
  exact hm

theorem Manned.quiet (hm : h.Manned) (q : h.Quiet k) : k.Manned := by
  obtain ⟨new, hnew, hs⟩ := q.threads
  refine hm.append hnew (fun id => q.aside.onward.started) fun id work hmem => ?_
  cases hs _ hmem

/-- The body that a start brings about is that of the execution it starts. -/
theorem Manned.start (hm : h.Manned) (id : ExecutionId) : (h.start id).2.Manned := by
  have hold (j : ExecutionId) : h.HasStarted j → (h.start id).2.HasStarted j := (onward_start h id).started
  rcases start_cases h id with ⟨-, hs⟩ | ⟨e, he, -, ⟨text, -, hs⟩ | ⟨-, hs⟩⟩ <;> rw [hs] at hold ⊢
  · exact hm
  · exact hm.append (List.append_nil _).symm hold nofun
  · refine hm.append rfl hold fun j work hmem => ?_
    cases List.mem_singleton.1 hmem
    exact ⟨_, (execution?_setExecution he _ id).trans (if_pos rfl), nofun⟩

theorem Manned.moves (hm : h.Manned) (hmv : f.Moves h k p) : k.Manned := by
  cases hmv with
  | compiling _ hw => exact hm.quiet (Activity.quiet_step hw)
  | start => exact hm.start _
  | register =>
    refine hm.append (List.append_nil _).symm ?_ nofun
    rintro id ⟨e, he, hs⟩
    exact ⟨e, execution?_registerExecution_of_some he _ _, hs⟩
  | _ => exact hm.same rfl rfl

/-- A thread that is stored again runs no other body than it did. -/
theorem Manned.setThread (hm : h.Manned) {i : ThreadId} {t : HostThread}
    (ht : ∀ id work, t = .body id work → h.HasStarted id) : ({ h with threads := h.threads.set i t } : Host).Manned := by
  intro j id work hj
  simp only at hj
  by_cases hij : i = j
  · subst hij
    rw [List.getElem?_set] at hj
    simp only [if_true] at hj
    split at hj
    · exact ht id work (Option.some.inj hj)
    · cases hj
  · rw [List.getElem?_set_ne hij] at hj
    exact hm j id work hj

theorem Manned.after (hm : h.Manned) (hs : h.after? ev = some k) : k.Manned := by
  cases ev with
  | order | stopAll =>
    cases hs
    refine hm.append rfl (fun _ => id) fun id work hmem => ?_
    cases List.mem_singleton.1 hmem
  | start id => cases hs; exact hm.start id
  | stop id => cases hs; exact hm.quiet (quiet_requestStop h id)
  | elapse | surroundings => cases hs; exact hm.same rfl rfl
  | move i =>
    obtain ⟨t, k, t', hi, hk, rfl⟩ := step_eq_some hs
    rcases HostThread.step_cases hk with ⟨id, ending, -, rfl, rfl⟩ | ⟨id, w, w', rfl, rfl, q⟩ | ⟨f, p, -, rfl, hmv⟩ |
      ⟨s, s', -, rfl, hq⟩ | ⟨r, s, s', -, rfl, q⟩
    · have hfinished : (h.finish id ending).Manned := by
        have hthreads : (h.finish id ending).threads = h.threads ++ [] := by rw [finish_threads, List.append_nil]
        exact hm.append hthreads (fun j => (aside_finish h id ending).onward.started) nofun
      exact hfinished.setThread nofun
    · refine (hm.quiet q).setThread fun j work heq => ?_
      cases heq
      exact q.aside.onward.started (hm i id w hi)
    · exact (hm.moves hmv).setThread nofun
    · exact (hm.quiet (StopAll.quiet_step hq)).setThread nofun
    · exact (hm.quiet q).setThread nofun

/-! ## What is only created -/

theorem execution?_finish_of_ne {id j : ExecutionId} (hne : j ≠ id) (ending : Ending) :
    (h.finish id ending).execution? j = h.execution? j := by
  unfold finish
  split
  · rfl
  · rename_i e he
    exact (execution?_setExecution he _ j).trans (if_neg hne)

/-- Where nobody has asked for anything, an execution that is only created stays as it is. -/
theorem Manned.created_kept (hm : h.Manned)
    (halone : ∀ (i : ThreadId) (f : Fulfilment), h.threads[i]? ≠ some (.fulfilment f)) (hu : ev.Unasked)
    (hs : h.after? ev = some k) {id : ExecutionId} {e : Execution} (he : h.execution? id = some e)
    (hc : e.state = .created) : k.execution? id = some e := by
  have quietly {k' : Host} (q : h.Quiet k') : k'.execution? id = some e := by
    unfold execution? at he ⊢
    rw [q.executions]
    exact he
  cases ev with
  | order | start | stop | stopAll => cases hu
  | elapse | surroundings => cases hs; exact he
  | move i =>
    obtain ⟨t, k, t', hi, hk, rfl⟩ := step_eq_some hs
    show k.execution? id = some e
    rcases HostThread.step_cases hk with ⟨j, ending, rfl, rfl, -⟩ | ⟨j, w, w', -, -, q⟩ | ⟨f, p, rfl, -, -⟩ |
      ⟨s, s', -, -, hq⟩ | ⟨r, s, s', -, -, q⟩
    · have hne : id ≠ j := by
        rintro rfl
        obtain ⟨e', he', hs'⟩ := hm i id _ hi
        rw [he] at he'
        cases he'
        exact hs' hc
      rw [execution?_finish_of_ne hne]
      exact he
    · exact quietly q
    · exact absurd hi (halone i f)
    · exact quietly (StopAll.quiet_step hq)
    · exact quietly q

end

end Scripting.Host
