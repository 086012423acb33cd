/-
How many executions of one name run, when all callers only have executions run. Between the end of a
build and the start of what was built nobody holds the lock of the name; a second look of another
caller in that gap passes over the new execution, because it is only created, and what that caller
builds may replace it. So two executions of a name can run, but only after one was replaced before it
had finished; and once one is replaced so, the two can come to run.

The invariant is `Accounted`: an execution that has not finished is registered or was replaced, one
that is only created has a caller who will start it, and a builder knows that it passed over whatever
stands registered and unfinished under its name.
-/
import Scripting.Proofs.Registry.Lock

namespace Scripting

namespace Host

/-! ## Runs and what is remarkable in them -/

/-- What is worth remembering of a run. -/
inductive Remark where
  /-- A second look found an execution registered that was only created, and passed over it. -/
  | passedOver (id : ExecutionId)
  /-- A new execution took the entry of one that had not finished. -/
  | replaced (id : ExecutionId)

/-- The registered execution of a name, if its state is of a kind. -/
def registeredIn (h : Host) (kind : ExecutionState → Bool) (n : String) : Option ExecutionId :=
  (h.registered? n).filter fun id => (h.execution? id).any fun e => kind e.state

/-- What is remarkable in an event. -/
def remarks (h : Host) : Event → List Remark
  | .move i =>
    match h.threads[i]? with
    | some (.fulfilment f) =>
      match f.phase with
      | .lookAgain => ((h.registeredIn (· == .created) f.name).map Remark.passedOver).toList
      | .register _ => ((h.registeredIn (· != .finished) f.name).map Remark.replaced).toList
      | _ => []
    | _ => []
  | _ => []

/-- Callers only have executions run: none is ordered without being started, or started by hand. -/
def Event.OnlyRuns : Event → Prop
  | .order _ starts => starts = true
  | .start _ => False
  | _ => True

/-- The hosts that events of a kind lead to, with what was remarkable on the way, the latest first. -/
inductive Reached (allowed : Event → Prop) (h : Host) : List Remark → Host → Prop
  | start : Reached allowed h [] h
  | next {rs : List Remark} {k k' : Host} {ev : Event} : Reached allowed h rs k → allowed ev →
      k.after? ev = some k' → Reached allowed h (k.remarks ev ++ rs) k'

theorem Reached.trans {allowed : Event → Prop} {a b c : Host} {rs rs' : List Remark}
    (h1 : a.Reached allowed rs b) (h2 : b.Reached allowed rs' c) : a.Reached allowed (rs' ++ rs) c := by
  induction h2 with
  | start => exact h1
  | next _ ha hs ih =>
    rw [List.append_assoc]
    exact .next ih ha hs

/-- An execution of a name runs. -/
def RunsAs (h : Host) (n : String) (id : ExecutionId) : Prop :=
  ∃ e, h.execution? id = some e ∧ e.threadName = n ∧ e.state = .running

theorem registeredIn_eq_some {h : Host} {kind : ExecutionState → Bool} {n : String} {id : ExecutionId} :
    h.registeredIn kind n = some id ↔
      h.registered? n = some id ∧ ∃ e, h.execution? id = some e ∧ kind e.state = true := by
  unfold registeredIn
  rw [Option.filter_eq_some_iff, Option.any_eq_true]

theorem remarks_lookAgain {h : Host} {i : ThreadId} {f : Fulfilment}
    (hi : h.threads[i]? = some (.fulfilment f)) (hp : f.phase = .lookAgain) :
    h.remarks (.move i) = ((h.registeredIn (· == .created) f.name).map Remark.passedOver).toList := by
  unfold remarks
  simp only [hi, hp]

theorem remarks_register {h : Host} {i : ThreadId} {f : Fulfilment} {unit : ExecutableUnit}
    (hi : h.threads[i]? = some (.fulfilment f)) (hp : f.phase = .register unit) :
    h.remarks (.move i) = ((h.registeredIn (· != .finished) f.name).map Remark.replaced).toList := by
  unfold remarks
  simp only [hi, hp]

/-- An execution is replaced only by the move that registers another under its name. -/
theorem replaced_mem_remarks {h : Host} {ev : Event} {id : ExecutionId} (hr : .replaced id ∈ h.remarks ev) :
    ∃ i f unit e, ev = .move i ∧ h.threads[i]? = some (.fulfilment f) ∧ f.phase = .register unit ∧
      h.registered? f.name = some id ∧ h.execution? id = some e ∧ e.state ≠ .finished := by
  unfold remarks at hr
  split at hr
  · rename_i i
    split at hr
    · rename_i f hf
      split at hr
      · simp at hr
      · rename_i unit hp
        rw [Option.mem_toList, Option.map_eq_some_iff] at hr
        obtain ⟨j, hj, hr⟩ := hr
        cases hr
        obtain ⟨h1, e, he, hk⟩ := registeredIn_eq_some.1 hj
        exact ⟨i, f, unit, e, rfl, hf, hp, h1, he, by simpa using hk⟩
      · cases hr
    · cases hr
  · cases hr

/-! ## The invariant -/

/-- What holds on every host that callers who only have executions run can lead to. -/
structure Accounted (rs : List Remark) (h : Host) : Prop where
  seated : h.Seated
  starting : ∀ (i : ThreadId) (f : Fulfilment), h.threads[i]? = some (.fulfilment f) → f.starts = true
  named : ∀ n id, h.registered? n = some id → ∃ e, h.execution? id = some e ∧ e.threadName = n
  current : ∀ id e, h.execution? id = some e → e.state ≠ .finished →
    h.registered? e.threadName = some id ∨ .replaced id ∈ rs
  passed : ∀ (i : ThreadId) (f : Fulfilment) id e, h.threads[i]? = some (.fulfilment f) → f.phase.isBuilding →
    h.registered? f.name = some id → h.execution? id = some e → e.state ≠ .finished → .passedOver id ∈ rs
  awaited : ∀ id e, h.execution? id = some e → e.state = .created →
    ∃ (i : ThreadId) (f : Fulfilment), h.threads[i]? = some (.fulfilment f) ∧ f.Starts id
  replaced : ∀ id, .replaced id ∈ rs → .passedOver id ∈ rs

theorem accounted_fresh {h : Host} (hf : h.Fresh) : Accounted [] h := by
  have ht : ∀ (i : ThreadId) t, h.threads[i]? ≠ some t := by intro i t; rw [hf.threads]; exact nofun
  have he : ∀ id e, h.execution? id ≠ some e := by
    intro id e; unfold execution?; rw [hf.executions]; exact nofun
  refine ⟨fun i f hi => absurd hi (ht i _), fun i f hi => absurd hi (ht i _), fun n id hn => ?_,
    fun id e h1 => absurd h1 (he id e), fun i f _ _ hi => absurd hi (ht i _),
    fun id e h1 => absurd h1 (he id e), fun id hid => (by cases hid)⟩
  unfold registered? at hn
  rw [hf.registry] at hn
  cases hn

/-- What one event does to the record of executions: it registers a new one, or leaves the entries and
brings none about. -/
theorem after?_record {h h' : Host} {ev : Event} (hs : h.after? ev = some h') :
    ((∀ n, h'.registered? n = h.registered? n) ∧ h.Onward h') ∨
    ∃ i f unit, ev = .move i ∧ h.threads[i]? = some (.fulfilment f) ∧ f.phase = .register unit ∧
      (∀ n, h'.registered? n = (h.registerExecution f.order unit).2.registered? n) ∧
      ∀ id, h'.execution? id = (h.registerExecution f.order unit).2.execution? id := by
  rcases after?_orders hs with ⟨hr, ho, -⟩ | ⟨o, starts, rfl, rfl⟩ | ⟨i, f, k, p, rfl, hi, hm, rfl⟩
  · exact .inl ⟨fun n => by unfold registered?; rw [hr], ho⟩
  · exact .inl ⟨fun _ => rfl, onward_of_eq rfl⟩
  · rcases hm.record with ⟨he, hr⟩ | ⟨unit, hp, rfl, -⟩ | ⟨id, -, rfl, -⟩
    · exact .inl ⟨fun n => by unfold registered?; simp only [hr], onward_of_eq he⟩
    · exact .inr ⟨i, f, unit, rfl, hi, hp, fun _ => rfl, fun _ => rfl⟩
    · exact .inl ⟨fun n => by unfold registered?; simp only [start_registry], (onward_start h id).withThreads _⟩

section Step

variable {rs : List Remark} {h h' : Host} {ev : Event}

theorem Accounted.starting_after (ih : Accounted rs h) (ha : ev.OnlyRuns) (hs : h.after? ev = some h')
    (i : ThreadId) (f : Fulfilment) (hi : h'.threads[i]? = some (.fulfilment f)) : f.starts = true := by
  rcases after?_orders hs with ⟨-, -, hq⟩ | ⟨o, starts, rfl, rfl⟩ | ⟨j, g, k, p, rfl, hj, hm, rfl⟩
  · exact ih.starting i f ((hq i f).1 hi)
  · rw [orders_after_arrival] at hi
    split at hi
    · subst hi; exact ha
    · exact ih.starting i f hi
  · rw [orders_after_move hj hm] at hi
    split at hi
    · subst hi; exact ih.starting j g hj
    · exact ih.starting i f hi

theorem Accounted.named_after (ih : Accounted rs h) (hs : h.after? ev = some h') (n : String)
    (id : ExecutionId) (hn : h'.registered? n = some id) :
    ∃ e, h'.execution? id = some e ∧ e.threadName = n := by
  rcases after?_record hs with ⟨hr, ho⟩ | ⟨i, f, unit, -, -, -, hr, he⟩
  · rw [hr] at hn
    obtain ⟨e, he, rfl⟩ := ih.named n id hn
    exact ho.newer he
  · rw [hr, registered?_registerExecution] at hn
    rw [he, execution?_registerExecution]
    split at hn
    · rename_i hname
      cases hn
      exact ⟨_, if_pos rfl, hname.symm⟩
    · obtain ⟨e, h1, rfl⟩ := ih.named n id hn
      have hlt : id < h.executions.length := (List.getElem?_eq_some_iff.1 h1).1
      exact ⟨e, by rw [if_neg (Nat.ne_of_lt hlt)]; exact h1, rfl⟩

theorem Accounted.current_after (ih : Accounted rs h) (hs : h.after? ev = some h') (id : ExecutionId)
    (e : Execution) (he : h'.execution? id = some e) (hu : e.state ≠ .finished) :
    h'.registered? e.threadName = some id ∨ .replaced id ∈ h.remarks ev ++ rs := by
  rcases after?_record hs with ⟨hr, ho⟩ | ⟨i, f, unit, rfl, hf, hp, hr, hx⟩
  · obtain ⟨e0, h0, hn, hu0, -⟩ := ho.older id e he
    rw [hr, hn]
    exact (ih.current id e0 h0 (hu0 hu)).imp_right (List.mem_append_right _)
  · rw [hr, registered?_registerExecution]
    rw [hx, execution?_registerExecution] at he
    split at he
    · rename_i hid
      cases he
      exact .inl (by rw [if_pos rfl, hid])
    · rcases ih.current id e he hu with hreg | hrep
      · by_cases hn : e.threadName = f.order.threadName
        · -- the new execution takes this one's entry
          refine .inr (List.mem_append_left _ ?_)
          have hreg' : h.registered? f.name = some id := (congrArg h.registered? hn).symm.trans hreg
          have hin : h.registeredIn (· != .finished) f.name = some id :=
            registeredIn_eq_some.2 ⟨hreg', e, he, by simpa using hu⟩
          rw [remarks_register hf hp, hin]
          exact List.mem_singleton_self _
        · exact .inl (by rw [if_neg hn]; exact hreg)
      · exact .inr (List.mem_append_right _ hrep)

/-- A builder that did not move, where the executions and what is registered for it are as they were. -/
theorem Accounted.passed_before (ih : Accounted rs h) (ho : h.Onward h') {i : ThreadId} {f : Fulfilment}
    {id : ExecutionId} {e : Execution} (hi : h.threads[i]? = some (.fulfilment f)) (hb : f.phase.isBuilding)
    (hn : h.registered? f.name = some id) (he : h'.execution? id = some e) (hu : e.state ≠ .finished) :
    .passedOver id ∈ h.remarks ev ++ rs := by
  obtain ⟨e0, h0, -, hu0, -⟩ := ho.older id e he
  exact List.mem_append_right _ (ih.passed i f id e0 hi hb hn h0 (hu0 hu))

/-- A builder that moved: it was one before, or it looked again just now. -/
theorem Accounted.passed_self (ih : Accounted rs h) {k : Host} {j : ThreadId} {g : Fulfilment}
    {p : Fulfilment.Phase} (hj : h.threads[j]? = some (.fulfilment g)) (hm : g.Moves h k p)
    (hb : p.isBuilding) {id : ExecutionId} {e : Execution} (hn : k.registered? g.name = some id)
    (he : k.execution? id = some e) (hu : e.state ≠ .finished) : .passedOver id ∈ h.remarks (.move j) ++ rs := by
  rcases hm.isBuilding hb with hgb | ⟨hp, hl, rfl⟩
  · rcases hm.record with ⟨hke, hkr⟩ | ⟨unit, -, -, rfl⟩ | ⟨_, -, -, hnb⟩
    · unfold registered? at hn
      rw [hkr] at hn
      exact ih.passed_before (onward_of_eq hke) hj hgb hn he hu
    · cases hb
    · exact absurd hb hnb
  · -- the second look found nothing that runs, so what is registered is only created
    have hc : e.state = .created := by
      have hnr := not_running_of_live? hl hn he
      cases hst : e.state with
      | created => rfl
      | running => exact absurd hst hnr
      | finished => exact absurd hst hu
    refine List.mem_append_left _ ?_
    have hin : k.registeredIn (· == .created) g.name = some id :=
      registeredIn_eq_some.2 ⟨hn, e, he, by simpa using hc⟩
    rw [remarks_lookAgain hj hp, hin]
    exact List.mem_singleton_self _

/-- A builder beside one that moved: where the other registers, it builds for another name. -/
theorem Accounted.passed_other (ih : Accounted rs h) {k : Host} {i j : ThreadId} {f g : Fulfilment}
    {p : Fulfilment.Phase} (hij : i ≠ j) (hi : h.threads[i]? = some (.fulfilment f)) (hb : f.phase.isBuilding)
    (hj : h.threads[j]? = some (.fulfilment g)) (hm : g.Moves h k p) {id : ExecutionId} {e : Execution}
    (hn : k.registered? f.name = some id) (he : k.execution? id = some e) (hu : e.state ≠ .finished) :
    .passedOver id ∈ h.remarks (.move j) ++ rs := by
  rcases hm.record with ⟨hke, hkr⟩ | ⟨unit, hp, rfl, -⟩ | ⟨id', -, rfl, -⟩
  · unfold registered? at hn
    rw [hkr] at hn
    exact ih.passed_before (onward_of_eq hke) hi hb hn he hu
  · -- both hold the lock of their name, so the names differ
    have hne : f.name ≠ g.name := by
      intro hfg
      refine hij (ih.seated.eq_of_holdsLock hi hj hfg ?_ (by rw [hp]; trivial))
      revert hb
      cases f.phase <;> intro hb <;> first | exact trivial | cases hb
    have hn' : h.registered? f.name = some id :=
      (registered?_registerExecution_of_ne hne h unit).symm.trans hn
    obtain ⟨e0, h0, -⟩ := ih.named f.name id hn'
    have heq : e0 = e :=
      Option.some.inj ((execution?_registerExecution_of_some h0 g.order unit).symm.trans he)
    exact List.mem_append_right _ (ih.passed i f id e hi hb hn' (heq ▸ h0) hu)
  · unfold registered? at hn
    rw [start_registry] at hn
    exact ih.passed_before (onward_start h id') hi hb hn he hu

theorem Accounted.passed_after (ih : Accounted rs h) (hs : h.after? ev = some h') (i : ThreadId)
    (f : Fulfilment) (id : ExecutionId) (e : Execution) (hi : h'.threads[i]? = some (.fulfilment f))
    (hb : f.phase.isBuilding) (hn : h'.registered? f.name = some id) (he : h'.execution? id = some e)
    (hu : e.state ≠ .finished) : .passedOver id ∈ h.remarks ev ++ rs := by
  rcases after?_orders hs with ⟨hr, ho, hq⟩ | ⟨o, starts, rfl, rfl⟩ | ⟨j, g, k, p, rfl, hj, hm, rfl⟩
  · unfold registered? at hn
    rw [hr] at hn
    exact ih.passed_before ho ((hq i f).1 hi) hb hn he hu
  · rw [orders_after_arrival] at hi
    split at hi
    · subst hi; cases hb
    · exact ih.passed_before (onward_of_eq rfl) hi hb hn he hu
  · rw [orders_after_move hj hm] at hi
    split at hi
    · subst hi
      exact ih.passed_self hj hm hb hn he hu
    · rename_i hij
      exact ih.passed_other hij hi hb hj hm hn he hu

theorem Accounted.awaited_after (ih : Accounted rs h) (hs : h.after? ev = some h') (id : ExecutionId)
    (e : Execution) (he : h'.execution? id = some e) (hc : e.state = .created) :
    ∃ (i : ThreadId) (f : Fulfilment), h'.threads[i]? = some (.fulfilment f) ∧ f.Starts id := by
  rcases after?_orders hs with ⟨-, ho, hq⟩ | ⟨o, starts, rfl, rfl⟩ | ⟨j, g, k, p, rfl, hj, hm, rfl⟩
  · obtain ⟨e0, h0, -, -, hc0, -⟩ := ho.older id e he
    obtain ⟨i, f, hi, hf⟩ := ih.awaited id e0 h0 (hc0 hc)
    exact ⟨i, f, (hq i f).2 hi, hf⟩
  · obtain ⟨i, f, hi, hf⟩ := ih.awaited id e he hc
    refine ⟨i, f, (orders_after_arrival h o starts i f).2 ?_, hf⟩
    rw [if_neg (Nat.ne_of_lt (List.getElem?_eq_some_iff.1 hi).1)]
    exact hi
  · -- an execution of before is still awaited, by the thread that moved or by another
    have before {e0 : Execution} (h0 : h.execution? id = some e0) (hc0 : e0.state = .created) :
        ∃ (i : ThreadId) (f : Fulfilment),
          (k.threads.set j (.fulfilment { g with phase := p }))[i]? = some (.fulfilment f) ∧ f.Starts id := by
      obtain ⟨i, f, hi, hf⟩ := ih.awaited id e0 h0 hc0
      by_cases hij : i = j
      · -- it still waits to start it, or has just done so
        subst hij
        rw [hj, Option.some.injEq, HostThread.fulfilment.injEq] at hi
        subst hi
        rcases hm.starts hf (ih.starting i g hj) with hp | hk
        · exact ⟨i, _, moved_self hj hm, .inr hp⟩
        · subst hk
          exact absurd hc (start_not_created he)
      · exact ⟨i, f, moved_other hj hm hi hij, hf⟩
    rcases hm.record with ⟨hke, -⟩ | ⟨unit, -, rfl, rfl⟩ | ⟨id', -, rfl, -⟩
    · unfold execution? at he
      simp only [hke] at he
      exact before he hc
    · replace he : (h.registerExecution g.order unit).2.execution? id = some e := he
      rw [execution?_registerExecution] at he
      split at he
      · rename_i hid
        subst hid
        exact ⟨j, _, moved_self hj hm, .inl rfl⟩
      · exact before he hc
    · obtain ⟨e0, h0, -, -, hc0, -⟩ := (onward_start h id').older id e he
      exact before h0 (hc0 hc)

theorem Accounted.replaced_after (ih : Accounted rs h) (id : ExecutionId)
    (hr : .replaced id ∈ h.remarks ev ++ rs) : .passedOver id ∈ h.remarks ev ++ rs := by
  rcases List.mem_append.1 hr with hr | hr
  · obtain ⟨i, f, unit, e, rfl, hf, hp, hn, he, hu⟩ := replaced_mem_remarks hr
    exact List.mem_append_right _ (ih.passed i f id e hf (by rw [hp]; trivial) hn he hu)
  · exact List.mem_append_right _ (ih.replaced id hr)

theorem Accounted.after (ih : Accounted rs h) (ha : ev.OnlyRuns) (hs : h.after? ev = some h') :
    Accounted (h.remarks ev ++ rs) h' :=
  ⟨seated_after hs ih.seated, ih.starting_after ha hs, ih.named_after hs, ih.current_after hs,
    ih.passed_after hs, ih.awaited_after hs, fun id => ih.replaced_after id⟩

end Step

theorem accounted_of_reached {h0 h : Host} {rs : List Remark} (hf : h0.Fresh)
    (hr : h0.Reached Event.OnlyRuns rs h) : Accounted rs h := by
  induction hr with
  | start => exact accounted_fresh hf
  | next _ ha hs ih => exact ih.after ha hs

/-! ## What a replaced execution leads to -/

theorem after?_fulfilment {h k : Host} {i : ThreadId} {f f' : Fulfilment}
    (hi : h.threads[i]? = some (.fulfilment f)) (hs : f.step h = some (k, f')) :
    h.after? (.move i) = some { k with threads := k.threads.set i (.fulfilment f') } := by
  unfold after? step
  simp only [hi, Option.bind_eq_bind, Option.bind_some, HostThread.step, hs, Option.map_some]

/-- A later host on which one execution has come to run, and what else concerns the others is as before. -/
structure Started (h : Host) (i : ThreadId) (id : ExecutionId) (k : Host) : Prop where
  reached : ∃ rs, h.Reached Event.OnlyRuns rs k
  runs : ∀ e, h.execution? id = some e → k.RunsAs e.threadName id
  others : ∀ j, j ≠ id → k.execution? j = h.execution? j
  orders : ∀ (j : ThreadId) (g : Fulfilment), j ≠ i → h.threads[j]? = some (.fulfilment g) →
    k.threads[j]? = some (.fulfilment g)
  environment : k.environment = h.environment

theorem exists_started_of_start {h : Host} {i : ThreadId} {f : Fulfilment} {id : ExecutionId} {e : Execution}
    (hi : h.threads[i]? = some (.fulfilment f)) (hp : f.phase = .start id) (he : h.execution? id = some e)
    (hc : e.state = .created) (hsp : h.environment.spawnFailure e.threadName = none) :
    ∃ k, h.Started i id k := by
  have hs : h.start id = (.ok true, { h.setExecution id { e with state := .running } with
      threads := h.threads ++ [.body id (.going { e with state := .running }.body)] }) := by
    rcases start_cases h id with ⟨hn, -⟩ | ⟨e', he', -, ⟨text, ht, -⟩ | ⟨-, hs⟩⟩
    · exact absurd hc (hn e he)
    · rw [he, Option.some.injEq] at he'
      subst he'
      rw [hsp] at ht; cases ht
    · rw [he, Option.some.injEq] at he'
      subst he'
      exact hs
  have hx (j : ExecutionId) := execution?_setExecution he { e with state := .running } j
  have hstep : f.step h = some ((h.start id).2, { f with phase := .done (.ok id) }) := by
    unfold Fulfilment.step
    simp only [hp, hs]
  have hafter := after?_fulfilment hi hstep
  have hruns : (Event.move i).OnlyRuns := trivial
  rw [hs] at hafter
  refine ⟨_, ⟨_, .next .start hruns hafter⟩, fun x h1 => ?_, fun j hj => (hx j).trans (if_neg hj),
    fun j g hj hg => ?_, rfl⟩
  · rw [he, Option.some.injEq] at h1
    subst h1
    exact ⟨_, (hx id).trans (if_pos rfl), rfl, rfl⟩
  · rw [List.getElem?_set_ne (Ne.symm hj)]
    exact getElem?_of_append rfl hg

/-- A caller who waits to start an execution can come to start it, whatever the others do. -/
theorem exists_started {h : Host} {i : ThreadId} {f : Fulfilment} {id : ExecutionId} {e : Execution}
    (hi : h.threads[i]? = some (.fulfilment f)) (hs : f.Starts id) (hf : f.starts = true)
    (he : h.execution? id = some e) (hc : e.state = .created)
    (hsp : h.environment.spawnFailure e.threadName = none) : ∃ k, h.Started i id k := by
  rcases hs with hp | hp
  · -- the caller first lets the others build
    have hstep : f.step h = some ({ h with registry := { h.registry with
        builders := Assoc.erase f.name h.registry.builders } }, { f with phase := .start id }) := by
      unfold Fulfilment.step Fulfilment.found
      simp only [hp, hf, if_true]
    have hafter := after?_fulfilment hi hstep
    have hruns : (Event.move i).OnlyRuns := trivial
    have hi' := List.getElem?_set_self (a := .fulfilment { f with phase := .start id })
      (List.getElem?_eq_some_iff.1 hi).1
    obtain ⟨k, ⟨rs, hreach⟩, hrun, hothers, horders, henv⟩ :=
      exists_started_of_start (h := { h with
        registry := { h.registry with builders := Assoc.erase f.name h.registry.builders }
        threads := h.threads.set i (.fulfilment { f with phase := .start id }) }) hi' rfl he hc hsp
    refine ⟨k, ⟨_, (Reached.next .start hruns hafter).trans hreach⟩, hrun, hothers, fun j g hj hg => ?_, henv⟩
    exact horders j g hj ((List.getElem?_set_ne (Ne.symm hj)).trans hg)
  · exact exists_started_of_start hi hp he hc hsp

theorem Started.runsAs {h k : Host} {i : ThreadId} {id j : ExecutionId} {n : String} (hs : h.Started i id k)
    (hj : h.RunsAs n j) : k.RunsAs n j := by
  obtain ⟨e, he, hn, hr⟩ := hj
  by_cases hji : j = id
  · subst hji
    exact hn ▸ hs.runs e he
  · exact ⟨e, (hs.others j hji).trans he, hn, hr⟩

/-! ## The theorem -/

/-- Two executions of a name run. -/
def Collides (h : Host) (n : String) : Prop := ∃ a b, a ≠ b ∧ h.RunsAs n a ∧ h.RunsAs n b

/-- Where two callers wait to start two executions of a name, both can come to run. -/
theorem exists_collision {h : Host} {i j : ThreadId} {f g : Fulfilment} {a b : ExecutionId} {ea eb : Execution}
    (hji : j ≠ i) (hba : b ≠ a) (hi : h.threads[i]? = some (.fulfilment f)) (hf : f.Starts a)
    (hfs : f.starts = true) (ha : h.execution? a = some ea) (hac : ea.state = .created)
    (hj : h.threads[j]? = some (.fulfilment g)) (hg : g.Starts b) (hgs : g.starts = true)
    (hb : h.execution? b = some eb) (hbc : eb.state = .created) (hn : eb.threadName = ea.threadName)
    (hsp : h.environment.spawnFailure ea.threadName = none) :
    ∃ rs k, h.Reached Event.OnlyRuns rs k ∧ k.Collides ea.threadName := by
  obtain ⟨k, hk⟩ := exists_started hi hf hfs ha hac hsp
  obtain ⟨rs, hreach⟩ := hk.reached
  -- the start of the one leaves the other and who waits for it as they were
  have hj' := hk.orders j g hji hj
  have hb' := (hk.others b hba).trans hb
  have hsp' : k.environment.spawnFailure eb.threadName = none := by
    rw [hk.environment, hn]
    exact hsp
  obtain ⟨m, hm⟩ := exists_started hj' hg hgs hb' hbc hsp'
  obtain ⟨rs', hreach'⟩ := hm.reached
  exact ⟨_, m, hreach.trans hreach', b, a, hba, hn ▸ hm.runs eb hb', hm.runsAs (hk.runs ea ha)⟩

/-- An execution is registered under one name only. -/
theorem Accounted.name_eq {rs : List Remark} {h : Host} (ih : Accounted rs h) {n n' : String} {id : ExecutionId}
    (hn : h.registered? n = some id) (hn' : h.registered? n' = some id) : n = n' := by
  obtain ⟨e, he, rfl⟩ := ih.named n id hn
  obtain ⟨e', he', rfl⟩ := ih.named n' id hn'
  rw [he, Option.some.injEq] at he'
  rw [he']

/-- Where an execution is replaced that had not finished, its name can come to have two that run. -/
theorem Accounted.collides_after {rs : List Remark} {h h' : Host} {ev : Event} (ih : Accounted rs h)
    (hs : h.after? ev = some h') {id : ExecutionId} (hr : .replaced id ∈ h.remarks ev) {n : String}
    (hn : h.registered? n = some id) (hsp : h'.environment.spawnFailure n = none) :
    ∃ rs' k, h'.Reached Event.OnlyRuns rs' k ∧ k.Collides n := by
  obtain ⟨i, f, unit, e, rfl, hi, hp, hreg, he, hu⟩ := replaced_mem_remarks hr
  obtain rfl := ih.name_eq hreg hn
  have hname : e.threadName = f.name := by
    obtain ⟨e0, h0, hname⟩ := ih.named _ _ hreg
    rw [he, Option.some.injEq] at h0
    exact h0 ▸ hname
  -- the new execution, which the thread that has registered it will start
  have hstep : f.step h = some ((h.registerExecution f.order unit).2,
      { f with phase := .release (.ok h.executions.length) }) := by
    unfold Fulfilment.step
    simp only [hp]
    rfl
  rw [after?_fulfilment hi hstep, Option.some.injEq] at hs
  subst hs
  have hne : id ≠ h.executions.length := Nat.ne_of_lt (List.getElem?_eq_some_iff.1 he).1
  have hnew := (execution?_registerExecution h f.order unit h.executions.length).trans (if_pos rfl)
  have hold := execution?_registerExecution_of_some he f.order unit
  have hself := List.getElem?_set_self (a := .fulfilment { f with phase := .release (.ok h.executions.length) })
    (show i < (h.registerExecution f.order unit).2.threads.length from (List.getElem?_eq_some_iff.1 hi).1)
  cases hst : e.state with
  | finished => exact absurd hst hu
  | running =>
    obtain ⟨k, hk⟩ := exists_started (h := { (h.registerExecution f.order unit).2 with threads := _ })
      hself (.inl rfl) (ih.starting i f hi) hnew rfl hsp
    obtain ⟨rs1, hreach⟩ := hk.reached
    exact ⟨rs1, k, hreach, id, _, hne, hk.runsAs ⟨e, hold, hname, hst⟩, hk.runs _ hnew⟩
  | created =>
    -- somebody else waits to start the old one
    obtain ⟨j, g, hj, hg⟩ := ih.awaited id e he hst
    have hji : j ≠ i := by
      rintro rfl
      rw [hi, Option.some.injEq, HostThread.fulfilment.injEq] at hj
      subst hj
      rcases hg with hg | hg <;> rw [hp] at hg <;> cases hg
    exact exists_collision (h := { (h.registerExecution f.order unit).2 with threads := _ }) hji hne hself
      (.inl rfl) (ih.starting i f hi) hnew rfl ((List.getElem?_set_ne (Ne.symm hji)).trans hj) hg
      (ih.starting j g hj) hold hst hname hsp

/-- As long as callers only have executions run, two executions of a name run only after one of them was
replaced before it had finished, which takes a second look that passed over it; and wherever such an
execution is replaced, the name can come to have two that run. -/
theorem one_runs_unless_replaced {h0 h : Host} {rs : List Remark} (hf : h0.Fresh)
    (hr : h0.Reached Event.OnlyRuns rs h) :
    (∀ n a b, a ≠ b → h.RunsAs n a → h.RunsAs n b → .replaced a ∈ rs ∨ .replaced b ∈ rs) ∧
    (∀ id, .replaced id ∈ rs → .passedOver id ∈ rs) ∧
    ∀ ev h' id n, h.after? ev = some h' → .replaced id ∈ h.remarks ev → h.registered? n = some id →
      h'.environment.spawnFailure n = none → ∃ rs' k, h'.Reached Event.OnlyRuns rs' k ∧ k.Collides n := by
  have ih := accounted_of_reached hf hr
  refine ⟨fun n a b hab ha hb => ?_, ih.replaced, fun ev h' id n hs hrep hn hsp =>
    ih.collides_after hs hrep hn hsp⟩
  obtain ⟨ea, hea, rfl, hra⟩ := ha
  obtain ⟨eb, heb, hnb, hrb⟩ := hb
  rcases ih.current a ea hea (by rw [hra]; exact nofun) with h1 | h1
  · rcases ih.current b eb heb (by rw [hrb]; exact nofun) with h2 | h2
    · -- both would be the one that is registered
      rw [hnb, h1, Option.some.injEq] at h2
      exact absurd h2 hab
    · exact .inr h2
  · exact .inl h1

/-! ## A run with two -/

/-- The host after a list of events. -/
def played (h : Host) (evs : List Event) : Option Host := evs.foldlM after? h

theorem reached_of_played {allowed : Event → Prop} {h k : Host} {evs : List Event}
    (hs : h.played evs = some k) (ha : ∀ ev ∈ evs, allowed ev) : ∃ rs, h.Reached allowed rs k := by
  induction evs generalizing h with
  | nil => cases hs; exact ⟨[], .start⟩
  | cons ev evs ih =>
    unfold played at hs
    rw [List.foldlM_cons] at hs
    obtain ⟨h1, h1s, hs⟩ := Option.bind_eq_some_iff.1 hs
    obtain ⟨rs, hr⟩ := ih hs fun e he => ha e (List.mem_cons_of_mem _ he)
    exact ⟨_, (Reached.next .start (ha ev List.mem_cons_self) h1s).trans hr⟩

theorem runsAs_iff {h : Host} {n : String} {id : ExecutionId} :
    h.RunsAs n id ↔ (h.execution? id).map (fun e => (e.threadName, e.state)) = some (n, .running) := by
  simp [RunsAs, Option.map_eq_some_iff]

instance (h : Host) (n : String) (id : ExecutionId) : Decidable (h.RunsAs n id) :=
  decidable_of_iff _ runsAs_iff.symm

/-- Two callers have a name run. The first comes to the point where it would start what it has built;
the second builds and starts; then the first starts. -/
def overtaken : List Event :=
  [.order job true, .order job true] ++ List.replicate 10 (.move 0) ++ List.replicate 11 (.move 1) ++ [.move 0]

theorem onlyRuns_overtaken : ∀ ev ∈ overtaken, ev.OnlyRuns := by
  simp [overtaken, Event.OnlyRuns]

theorem two_run_overtaken : ∃ h, plain.played overtaken = some h ∧ h.RunsAs "job" 0 ∧ h.RunsAs "job" 1 := by
  have hp : (plain.played overtaken).any (fun h => h.RunsAs "job" 0 ∧ h.RunsAs "job" 1) = true := by
    decide +kernel
  obtain ⟨h, hs, hr⟩ := (Option.any_eq_true _ _).1 hp
  exact ⟨h, hs, of_decide_eq_true hr⟩

/-- Callers who only have executions run can come to have two of one name that run. -/
theorem two_run : ¬ ∀ (h0 h : Host) (rs : List Remark), h0.Fresh → h0.Reached Event.OnlyRuns rs h →
    ∀ n a b, h.RunsAs n a → h.RunsAs n b → a = b := by
  intro hall
  obtain ⟨h, hs, h0, h1⟩ := two_run_overtaken
  obtain ⟨rs, hr⟩ := reached_of_played hs onlyRuns_overtaken
  exact absurd (hall plain h rs fresh_plain hr "job" 0 1 h0 h1) (by decide)

theorem replaced_overtaken : ∃ rs h, plain.Reached Event.OnlyRuns rs h ∧ h.RunsAs "job" 0 ∧ h.RunsAs "job" 1 ∧
    (.replaced 0 ∈ rs ∨ .replaced 1 ∈ rs) := by
  obtain ⟨h, hs, h0, h1⟩ := two_run_overtaken
  obtain ⟨rs, hr⟩ := reached_of_played hs onlyRuns_overtaken
  exact ⟨rs, h, hr, h0, h1, (one_runs_unless_replaced fresh_plain hr).1 "job" 0 1 (by decide) h0 h1⟩

end Host

end Scripting
