/-
One operation after the other. Where every order is fulfilled before anything else is asked of the
registry, an execution runs unregistered only if it was started late: created, then superseded under
its name by a later order, and started after that.

`Orderly` is what holds between operations. While an order is being fulfilled `Making` holds besides:
what is registered under a name for which somebody builds does not run, and what is about to be started
is registered.
-/
import Scripting.Proofs.Host.Course
import Scripting.Proofs.Registry.Exclusion

namespace Scripting.Host

/-- The execution that an event brings to run though it is not the one registered under its name. -/
def lateStart (h : Host) : Event → List ExecutionId
  | .start id =>
    if (h.execution? id).any fun e => e.state == .created && (h.environment.spawnFailure e.threadName).isNone &&
        h.registered? e.threadName != some id then [id] else []
  | _ => []

/-- The hosts that complete operations lead to, with the executions that were started late: an order
is fulfilled, everything is stopped, or something happens that is a single event. -/
inductive Operated (h0 : Host) : List ExecutionId → Host → Prop
  | start : Operated h0 [] h0
  | event {late : List ExecutionId} {h k : Host} {ev : Event} : Operated h0 late h →
      (∀ o starts, ev ≠ .order o starts) → h.after? ev = some k → Operated h0 (h.lateStart ev ++ late) k
  | order {late : List ExecutionId} {h k : Host} {f f' : Fulfilment} {r : Except OrderError ExecutionId} :
      Operated h0 late h → f.phase = .lookUp → Course Event.Unasked (fun h f => f.step h) h f k f' →
      f'.phase = .done r → Operated h0 late k
  | stopAll {late : List ExecutionId} {h k : Host} : Operated h0 late h →
      Course Event.Unasked (fun h s => s.step h) h StopAll.start k .done → Operated h0 late k

/-! ## The invariant -/

/-- Every execution has a token of its own. -/
structure Tokened (h : Host) : Prop where
  there : ∀ id e, h.execution? id = some e → e.token < h.tokens.length
  distinct : ∀ a b ea eb, h.execution? a = some ea → h.execution? b = some eb → ea.token = eb.token → a = b

/-- What holds between operations. -/
structure Orderly (late : List ExecutionId) (h : Host) : Prop where
  alone : ∀ (i : ThreadId) (f : Fulfilment), h.threads[i]? ≠ some (.fulfilment f)
  sorted : Assoc.Ascending h.registry.entries
  named : ∀ n id, h.registered? n = some id → ∃ e, h.execution? id = some e ∧ e.threadName = n
  running : ∀ id e, h.execution? id = some e → e.state = .running →
    (h.registered? e.threadName = some id ↔ id ∉ late)
  late : ∀ id ∈ late, ∃ e, h.execution? id = some e ∧ e.state ≠ .created ∧ h.registered? e.threadName ≠ some id
  tokened : h.Tokened

/-- What holds besides while an order is being fulfilled. -/
structure Making (h : Host) (f : Fulfilment) : Prop where
  fallow : f.phase.isBuilding → ∀ id e, h.registered? f.name = some id → h.execution? id = some e →
    e.state ≠ .running
  awaited : ∀ id, f.Starts id → ∃ e, h.execution? id = some e ∧ h.registered? e.threadName = some id
  announced : f.phase.isAnnounced → Assoc.erase f.name h.registry.compiling = []
  unannounced : ¬ f.phase.isAnnounced → h.registry.compiling = []

theorem orderly_fresh {h : Host} (hf : h.Fresh) : Orderly [] h := by
  have he : ∀ id e, h.execution? id ≠ some e := by
    intro id e; unfold execution?; rw [hf.executions]; exact nofun
  refine ⟨fun i f hi => ?_, ?_, fun n id hn => ?_, fun id e h1 => absurd h1 (he id e),
    fun _ hid => (by cases hid), ⟨fun id e h1 => absurd h1 (he id e), fun a _ ea _ h1 => absurd h1 (he a ea)⟩⟩
  · rw [hf.threads] at hi; cases hi
  · rw [hf.registry]; exact Assoc.ascending_nil
  · unfold registered? at hn
    rw [hf.registry] at hn; cases hn

theorem making_lookUp {h : Host} {f : Fulfilment} (hc : h.registry.compiling = []) (hp : f.phase = .lookUp) :
    Making h f := by
  refine ⟨fun hb => ?_, fun id hs => ?_, fun ha => ?_, fun _ => hc⟩
  · rw [hp] at hb; cases hb
  · rcases hs with hs | hs <;> rw [hp] at hs <;> cases hs
  · rw [hp] at ha; cases ha

/-! ## What happens meanwhile -/

section Step

variable {late : List ExecutionId} {h k : Host} {f : Fulfilment}

theorem Onward.tokened (ho : h.Onward k) (hl : h.tokens.length ≤ k.tokens.length) (ht : h.Tokened) :
    k.Tokened := by
  refine ⟨fun id e he => ?_, fun a b ea eb ha hb hab => ?_⟩
  · obtain ⟨e0, h0, -, -, -, htok⟩ := ho.older id e he
    rw [htok]
    exact Nat.lt_of_lt_of_le (ht.there id e0 h0) hl
  · obtain ⟨e1, h1, -, -, -, ht1⟩ := ho.older a ea ha
    obtain ⟨e2, h2, -, -, -, ht2⟩ := ho.older b eb hb
    exact ht.distinct a b e1 e2 h1 h2 (by rw [← ht1, ← ht2, hab])

theorem Aside.registered? (ha : h.Aside k) (n : String) : k.registered? n = h.registered? n := by
  unfold Host.registered?
  rw [ha.registry]

theorem Aside.running (ha : h.Aside k) {id : ExecutionId} {e : Execution} (he : k.execution? id = some e)
    (hr : e.state = .running) : h.execution? id = some e := by
  obtain ⟨e0, h0, rfl | ⟨o, rfl⟩⟩ := ha.older id e he
  · exact h0
  · cases hr

/-- The invariant is kept where the entries stay, no execution comes about and none comes to run. -/
theorem Orderly.kept (ih : Orderly late h) (hq : h.SameOrders k) (hr : k.registry.entries = h.registry.entries)
    (ho : h.Onward k) (hl : h.tokens.length ≤ k.tokens.length)
    (hrun : ∀ id e, k.execution? id = some e → e.state = .running → h.execution? id = some e) :
    Orderly late k := by
  have hreg (n : String) : k.registered? n = h.registered? n := by unfold Host.registered?; rw [hr]
  refine ⟨fun i f hi => ih.alone i f ((hq i f).1 hi), by rw [hr]; exact ih.sorted,
    fun n id hn => ?_, fun id e he hst => ?_, fun id hid => ?_, ho.tokened hl ih.tokened⟩
  · rw [hreg] at hn
    obtain ⟨e, he, rfl⟩ := ih.named n id hn
    exact ho.newer he
  · rw [hreg]
    exact ih.running id e (hrun id e he hst) hst
  · obtain ⟨e0, h0, hc, hn⟩ := ih.late id hid
    obtain ⟨e, he, hname⟩ := ho.newer h0
    refine ⟨e, he, fun hce => ?_, by rw [hreg, hname]; exact hn⟩
    obtain ⟨x, hx, -, -, hcx, -⟩ := ho.older id e he
    rw [h0, Option.some.injEq] at hx
    subst hx
    exact hc (hcx hce)

theorem Orderly.aside (ih : Orderly late h) (ha : h.Aside k) : Orderly late k :=
  ih.kept ha.orders (by rw [ha.registry]) ha.onward (Nat.le_of_eq ha.tokens.symm) fun _ _ => ha.running

theorem Making.aside (im : Making h f) (ha : h.Aside k) : Making k f := by
  refine ⟨fun hb id e hn he => ?_, fun id hs => ?_, by rw [ha.registry]; exact im.announced,
    by rw [ha.registry]; exact im.unannounced⟩
  · rw [ha.registered?] at hn
    intro hr
    exact im.fallow hb id e hn (ha.running he hr) hr
  · obtain ⟨e, he, hn⟩ := im.awaited id hs
    obtain ⟨e', he', hname⟩ := ha.onward.newer he
    exact ⟨e', he', by rw [ha.registered?, hname]; exact hn⟩

/-- Where no thread fulfils an order, what happens without anybody's asking concerns no order. -/
theorem Orderly.aside_of_unasked (ih : Orderly late h) {ev : Event} (hu : ev.Unasked)
    (hs : h.after? ev = some k) : h.Aside k := by
  rcases after?_cases hs with ⟨ha, -⟩ | ⟨id, rfl, -⟩ | ⟨o, starts, rfl, -⟩ | ⟨i, f, -, -, -, hi, -⟩
  · exact ha
  · cases hu
  · cases hu
  · exact absurd hi (ih.alone i f)

theorem lateStart_of_some {id : ExecutionId} {e : Execution} (he : h.execution? id = some e)
    (hc : e.state = .created) (hsp : h.environment.spawnFailure e.threadName = none) :
    h.lateStart (.start id) = if h.registered? e.threadName = some id then [] else [id] := by
  unfold lateStart
  simp only [he, Option.any_some, hc, hsp, beq_self_eq_true, Option.isNone_none, Bool.true_and]
  by_cases hn : h.registered? e.threadName = some id
  · rw [if_pos hn, hn]; simp
  · rw [if_neg hn]; simp [hn]

/-- An execution that is only created comes to run: among the late ones, unless it is registered. -/
theorem Orderly.setRunning (ih : Orderly late h) {id : ExecutionId} {e : Execution}
    (he : h.execution? id = some e) (hc : e.state = .created)
    (hx : ∀ j, k.execution? j = if j = id then some { e with state := .running } else h.execution? j)
    (hr : k.registry = h.registry) (hq : h.SameOrders k) (ho : h.Onward k)
    (hl : h.tokens.length ≤ k.tokens.length) :
    Orderly ((if h.registered? e.threadName = some id then [] else [id]) ++ late) k := by
  have hreg (n : String) : k.registered? n = h.registered? n := by unfold Host.registered?; rw [hr]
  have hnl : id ∉ late := by
    intro hid
    obtain ⟨e0, h0, hc0, -⟩ := ih.late id hid
    rw [he, Option.some.injEq] at h0
    subst h0
    exact hc0 hc
  refine ⟨fun i f hi => ih.alone i f ((hq i f).1 hi), by rw [hr]; exact ih.sorted, fun n j hn => ?_,
    fun j e' hj hrun => ?_, fun j hj => ?_, ho.tokened hl ih.tokened⟩
  · rw [hreg] at hn
    obtain ⟨e0, h0, rfl⟩ := ih.named n j hn
    exact ho.newer h0
  · rw [hreg]
    rw [hx] at hj
    split at hj
    · rename_i hji
      cases hj
      subst hji
      -- it is late exactly if it is not registered
      show h.registered? e.threadName = some j ↔ _
      split
      · rename_i hn
        simpa [hnl] using hn
      · rename_i hn
        simpa using hn
    · rename_i hji
      rw [ih.running j e' hj hrun]
      split
      · simp
      · simp [hji]
  · by_cases hji : j = id
    · subst hji
      refine ⟨_, (hx j).trans (if_pos rfl), nofun, ?_⟩
      rw [hreg]
      split at hj
      · exact absurd hj hnl
      · assumption
    · have hjl : j ∈ late := by
        split at hj
        · exact hj
        · exact (List.mem_cons.1 hj).resolve_left hji
      obtain ⟨e0, h0, hc0, hn0⟩ := ih.late j hjl
      exact ⟨e0, (hx j).trans ((if_neg hji).trans h0), hc0, by rw [hreg]; exact hn0⟩

theorem Orderly.start (ih : Orderly late h) (id : ExecutionId) :
    Orderly (h.lateStart (.start id) ++ late) (h.start id).2 := by
  have ho := onward_start h id
  have hq := sameOrders_start h id
  have hl := Nat.le_of_eq (congrArg List.length (start_tokens h id).symm)
  rcases start_cases h id with ⟨hn, hs⟩ | ⟨e, he, hc, ⟨text, hsp, hs⟩ | ⟨hsp, hs⟩⟩
  · -- it is not there, or no longer only created
    have hlate : h.lateStart (.start id) = [] := by
      unfold lateStart
      cases he : h.execution? id with
      | none => simp [he]
      | some e => simp [he, hn e he]
    rw [hs, hlate]
    exact ih
  · -- no thread can be had for it
    have hlate : h.lateStart (.start id) = [] := by
      unfold lateStart
      simp [he, hsp]
    rw [hs, hlate]
    exact ih.aside (aside_setExecution he _)
  · rw [lateStart_of_some he hc hsp]
    rw [hs] at ho hq hl ⊢
    exact ih.setRunning he hc (execution?_setExecution he _) rfl hq ho hl

/-! ## Fulfilling an order -/

theorem lateStart_of_registered {id : ExecutionId} {e : Execution} (he : h.execution? id = some e)
    (hn : h.registered? e.threadName = some id) : h.lateStart (.start id) = [] := by
  unfold lateStart
  simp [he, hn]

variable {p : Fulfilment.Phase}

theorem Tokened.register (ht : h.Tokened) (o : Order) (unit : ExecutableUnit) :
    (h.registerExecution o unit).2.Tokened := by
  have hl : (h.registerExecution o unit).2.tokens.length = h.tokens.length + 1 := by
    simp [registerExecution, newToken]
  refine ⟨fun id e he => ?_, fun a b ea eb ha hb hab => ?_⟩
  · rw [hl]
    rw [execution?_registerExecution] at he
    split at he
    · cases he; exact Nat.lt_succ_self _
    · exact Nat.lt_succ_of_lt (ht.there id e he)
  · rw [execution?_registerExecution] at ha hb
    split at ha <;> split at hb
    · rename_i ha' hb'; rw [ha', hb']
    · cases ha
      exact absurd (ht.there b eb hb) (by rw [← hab]; exact Nat.lt_irrefl _)
    · cases hb
      exact absurd (ht.there a ea ha) (by rw [hab]; exact Nat.lt_irrefl _)
    · exact ht.distinct a b ea eb ha hb hab

/-- A new execution takes the entry of its name from one that does not run. -/
theorem Orderly.register (ih : Orderly late h) (o : Order) (unit : ExecutableUnit)
    (hf : ∀ id e, h.registered? o.threadName = some id → h.execution? id = some e → e.state ≠ .running) :
    Orderly late (h.registerExecution o unit).2 := by
  have hx (id : ExecutionId) := execution?_registerExecution h o unit id
  have hr (n : String) := registered?_registerExecution h o unit n
  refine ⟨ih.alone, Assoc.ascending_insert ih.sorted _ _, fun n id hn => ?_, fun id e he hst => ?_,
    fun id hid => ?_, ih.tokened.register o unit⟩
  · rw [hr] at hn
    split at hn
    · rename_i hname
      cases hn
      exact ⟨_, (hx _).trans (if_pos rfl), hname.symm⟩
    · obtain ⟨e, h1, hname⟩ := ih.named n id hn
      exact ⟨e, execution?_registerExecution_of_some h1 o unit, hname⟩
  · rw [hx] at he
    split at he
    · cases he; cases hst
    · rename_i hid
      rw [hr]
      split
      · -- it lost its entry before, so it was started late
        rename_i hname
        have hnr : h.registered? e.threadName ≠ some id := fun hreg => hf id e (hname ▸ hreg) he hst
        have hnl := (ih.running id e he hst).not.1 hnr
        simp only [Option.some.injEq]
        exact iff_of_false (Ne.symm hid) hnl
      · exact ih.running id e he hst
  · obtain ⟨e, he, hc, hn⟩ := ih.late id hid
    refine ⟨e, execution?_registerExecution_of_some he o unit, hc, ?_⟩
    rw [hr]
    split
    · rw [Ne, Option.some.injEq]
      exact Ne.symm (Nat.ne_of_lt (List.getElem?_eq_some_iff.1 he).1)
    · exact hn

theorem Orderly.moves (ih : Orderly late h) (im : Making h f) (hm : f.Moves h k p) : Orderly late k := by
  rcases hm.record with ⟨he, hr⟩ | ⟨unit, hp, rfl, -⟩ | ⟨id, hp, rfl, -⟩
  · obtain ⟨new, hn, hs⟩ := hm.threads
    refine ih.kept (sameOrders_append hn hs) hr (onward_of_eq he) hm.tokens fun id e h1 _ => ?_
    unfold execution? at h1 ⊢
    rw [← he]; exact h1
  · exact ih.register f.order unit (im.fallow (by rw [hp]; trivial))
  · -- it starts what is registered, which is no late start
    obtain ⟨e, he, hn⟩ := im.awaited id (.inr hp)
    have hst := ih.start id
    rw [lateStart_of_registered he hn] at hst
    exact hst

theorem Orderly.making_after (ih : Orderly late h) (im : Making h f) (hm : f.Moves h k p) :
    Making k { f with phase := p } := by
  refine ⟨fun hb id e hn he => ?_, fun id hs => ?_, fun hpa => ?_, fun hpa => ?_⟩
  · -- it builds as before, or has just looked and found nothing that runs
    rcases hm.isBuilding hb with hfb | ⟨-, hl, rfl⟩
    · rcases hm.record with ⟨hke, hkr⟩ | ⟨unit, -, -, rfl⟩ | ⟨_, -, -, hnb⟩
      · unfold registered? at hn
        rw [hkr] at hn
        unfold execution? at he
        rw [hke] at he
        exact im.fallow hfb id e hn he
      · cases hb
      · exact absurd hb hnb
    · exact not_running_of_live? hl hn he
  · -- what is found is registered, and so is what has just been made
    have found {j : ExecutionId} (hl : h.live? f.name = some j) :
        ∃ e, h.execution? j = some e ∧ h.registered? e.threadName = some j := by
      obtain ⟨hn, -⟩ := live?_eq_some hl
      obtain ⟨e, he, hname⟩ := ih.named _ _ hn
      exact ⟨e, he, hname ▸ hn⟩
    rcases hm.starts_after hs with ⟨hl, rfl⟩ | ⟨unit, rfl, rfl⟩ | ⟨hp, hke, hkr⟩
    · exact found hl
    · exact ⟨_, (execution?_registerExecution h f.order unit _).trans (if_pos rfl),
        (registered?_registerExecution h f.order unit _).trans (if_pos rfl)⟩
    · obtain ⟨e, he, hn⟩ := im.awaited id (.inl hp)
      unfold execution? registered?
      rw [hke, hkr]
      exact ⟨e, he, hn⟩
  · rcases hm.announced with ⟨hk, hiff⟩ | ⟨hp, -, hk⟩ | ⟨-, -, hn⟩
    · rw [hk]
      exact im.announced (hiff.1 hpa)
    · -- the only token there is the one just entered
      rw [hk, im.unannounced (by rw [hp]; exact id)]
      simp [Assoc.insert, Assoc.erase]
    · exact absurd hpa hn
  · rcases hm.announced with ⟨hk, hiff⟩ | ⟨-, hn, -⟩ | ⟨hfa, hk, -⟩
    · rw [hk]
      exact im.unannounced fun hfa => hpa (hiff.2 hfa)
    · exact absurd hn hpa
    · rw [hk]
      exact im.announced hfa

/-- An order being fulfilled keeps the invariant, whatever happens meanwhile. -/
theorem Orderly.fulfilling (ih : Orderly late h) (im : Making h f) {f' : Fulfilment}
    (hc : Course Event.Unasked (fun h f => f.step h) h f k f') : Orderly late k ∧ Making k f' := by
  -- its own moves need both invariants; what comes between them concerns no order
  induction hc with
  | start => exact ⟨ih, im⟩
  | move _ hs ih =>
    obtain ⟨hm, hf⟩ := Fulfilment.moves_of_step hs
    rw [hf]
    exact ⟨ih.1.moves ih.2 hm, ih.1.making_after ih.2 hm⟩
  | event _ hu hs ih =>
    have ha := ih.1.aside_of_unasked hu hs
    exact ⟨ih.1.aside ha, ih.2.aside ha⟩

/-- So does stopping everything. -/
theorem Orderly.stopping (ih : Orderly late h) {s s' : StopAll}
    (hc : Course Event.Unasked (fun h s => s.step h) h s k s') :
    Orderly late k ∧ k.registry = h.registry := by
  induction hc with
  | start => exact ⟨ih, rfl⟩
  | move _ hs ih =>
    have q := StopAll.quiet_step hs
    exact ⟨ih.1.aside q.aside, q.registry.trans ih.2⟩
  | event _ hu hs ih =>
    have ha := ih.1.aside_of_unasked hu hs
    exact ⟨ih.1.aside ha, ha.registry.trans ih.2⟩

end Step

/-- Between operations the invariant holds and nothing is being made ready. -/
theorem orderly_of_operated {h0 h : Host} {late : List ExecutionId} (hf : h0.Fresh) (ho : h0.Operated late h) :
    Orderly late h ∧ h.registry.compiling = [] := by
  induction ho with
  | start => exact ⟨orderly_fresh hf, by rw [hf.registry]⟩
  | @event late h k ev _ hno hs ih =>
    obtain ⟨ih, hc⟩ := ih
    rcases after?_cases hs with ⟨ha, hns, -⟩ | ⟨id, rfl, rfl⟩ | ⟨o, starts, rfl, -⟩ | ⟨i, f, -, -, -, hi, -⟩
    · have hl : h.lateStart ev = [] := by
        cases ev with
        | start id => exact absurd rfl (hns id)
        | _ => rfl
      rw [hl]
      exact ⟨ih.aside ha, by rw [ha.registry]; exact hc⟩
    · exact ⟨ih.start id, by rw [start_registry]; exact hc⟩
    · exact absurd rfl (hno o starts)
    · exact absurd hi (ih.alone i f)
  | order _ hp hcourse hd ih =>
    obtain ⟨ho, hm⟩ := ih.1.fulfilling (making_lookUp ih.2 hp) hcourse
    exact ⟨ho, hm.unannounced (by rw [hd]; exact id)⟩
  | stopAll _ hcourse ih =>
    obtain ⟨ho, hr⟩ := ih.1.stopping hcourse
    exact ⟨ho, by rw [hr]; exact ih.2⟩

end Scripting.Host
