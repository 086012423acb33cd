/-
What can happen on a host, in any order: callers arrive with orders or to stop everything, somebody
starts or stops an execution, a thread makes a move, time passes, and the surroundings change. Each
event is one of four things to the registry and the executions (`Host.after?_cases`).
-/
import Scripting.Proofs.Host.Moves
import Scripting.Host.Schedule

namespace Scripting.Host

/-- What can happen next. -/
inductive Event where
  /-- A caller arrives with an order, on a thread of its own. -/
  | order (o : Order) (starts : Bool)
  /-- A caller arrives who wants everything stopped. -/
  | stopAll
  | start (id : ExecutionId)
  | stop (id : ExecutionId)
  /-- A thread makes a move. -/
  | move (i : ThreadId)
  | elapse (millis : Nat)
  /-- Sources, the compiler or anything else around the host change. -/
  | surroundings (e : Environment)

/-- The host after an event; none where the event cannot happen now. -/
def after? (h : Host) : Event → Option Host
  | .order o starts => some (h.leave o starts).2
  | .stopAll => some { h with threads := h.threads ++ [.stopAll .start] }
  | .start id => some (h.start id).2
  | .stop id => some (h.requestStop id)
  | .move i => h.step i
  | .elapse millis => some { h with clock := h.clock + millis }
  | .surroundings e => some { h with environment := e }

/-! ## Fulfilments among the threads -/

/-- Two hosts have the same fulfilments on the same threads. -/
def SameOrders (h h' : Host) : Prop :=
  ∀ (j : ThreadId) (f : Fulfilment),
    h'.threads[j]? = some (.fulfilment f) ↔ h.threads[j]? = some (.fulfilment f)

theorem SameOrders.trans {a b c : Host} (h1 : a.SameOrders b) (h2 : b.SameOrders c) : a.SameOrders c :=
  fun j f => (h2 j f).trans (h1 j f)

theorem sameOrders_of_threads_eq {h h' : Host} (ht : h'.threads = h.threads) : h.SameOrders h' := by
  intro j f
  rw [ht]

theorem sameOrders_append {h h' : Host} {new : List HostThread} (ht : h'.threads = h.threads ++ new)
    (hn : ∀ t ∈ new, ∀ g, t ≠ .fulfilment g) : h.SameOrders h' := by
  intro j f
  rw [ht]
  rcases Nat.lt_or_ge j h.threads.length with hj | hj
  · rw [List.getElem?_append_left hj]
  · rw [List.getElem?_append_right hj, List.getElem?_eq_none hj]
    constructor
    · intro hf
      exact absurd rfl (hn _ (List.mem_of_getElem? hf) f)
    · intro hf; cases hf

theorem sameOrders_set {h : Host} {i : ThreadId} {t t' : HostThread} (ht : h.threads[i]? = some t)
    (hn : ∀ g, t ≠ .fulfilment g) (hn' : ∀ g, t' ≠ .fulfilment g) :
    h.SameOrders { h with threads := h.threads.set i t' } := by
  intro j f
  by_cases hj : i = j
  · subst hj
    simp only
    rw [List.getElem?_set_self (List.getElem?_eq_some_iff.1 ht).1, ht]
    simp only [Option.some.injEq]
    exact iff_of_false (hn' f) (hn f)
  · simp only
    rw [List.getElem?_set_ne hj]

theorem Quiet.sameOrders {h h' : Host} (q : h.Quiet h') : h.SameOrders h' := by
  obtain ⟨new, hn, hs⟩ := q.threads
  exact sameOrders_append hn fun t ht g hg => by have := hs t ht; rw [hg] at this; cases this

/-- The threads that a host had are still there behind new ones. -/
theorem getElem?_of_append {h h' : Host} {new : List HostThread} (ht : h'.threads = h.threads ++ new)
    {i : ThreadId} {t : HostThread} (hi : h.threads[i]? = some t) : h'.threads[i]? = some t := by
  rw [ht, List.getElem?_append_left (List.getElem?_eq_some_iff.1 hi).1, hi]

/-- The fulfilments after one of them has moved. -/
theorem orders_after_move {h k : Host} {i : ThreadId} {f : Fulfilment} {p : Fulfilment.Phase}
    (hi : h.threads[i]? = some (.fulfilment f)) (hm : f.Moves h k p) (j : ThreadId) (g : Fulfilment) :
    (k.threads.set i (.fulfilment { f with phase := p }))[j]? = some (.fulfilment g) ↔
      if j = i then g = { f with phase := p } else h.threads[j]? = some (.fulfilment g) := by
  obtain ⟨new, hn, hs⟩ := hm.threads
  have hik := getElem?_of_append hn hi
  split
  · rename_i hj
    subst hj
    rw [List.getElem?_set_self (List.getElem?_eq_some_iff.1 hik).1, Option.some.injEq,
      HostThread.fulfilment.injEq]
    exact eq_comm
  · rename_i hj
    rw [List.getElem?_set_ne (Ne.symm hj)]
    exact sameOrders_append hn hs j g

theorem moved_self {h k : Host} {i : ThreadId} {f : Fulfilment} {p : Fulfilment.Phase}
    (hi : h.threads[i]? = some (.fulfilment f)) (hm : f.Moves h k p) :
    (k.threads.set i (.fulfilment { f with phase := p }))[i]? = some (.fulfilment { f with phase := p }) :=
  (orders_after_move hi hm i _).2 (by rw [if_pos rfl])

theorem moved_other {h k : Host} {i j : ThreadId} {f g : Fulfilment} {p : Fulfilment.Phase}
    (hi : h.threads[i]? = some (.fulfilment f)) (hm : f.Moves h k p) (hj : h.threads[j]? = some (.fulfilment g))
    (hji : j ≠ i) :
    (k.threads.set i (.fulfilment { f with phase := p }))[j]? = some (.fulfilment g) :=
  (orders_after_move hi hm j g).2 (by rw [if_neg hji]; exact hj)

/-- The fulfilments after a caller has come. -/
theorem orders_after_arrival (h : Host) (o : Order) (starts : Bool) (j : ThreadId) (g : Fulfilment) :
    (h.leave o starts).2.threads[j]? = some (.fulfilment g) ↔
      if j = h.threads.length then g = { self := j, order := o, starts }
      else h.threads[j]? = some (.fulfilment g) := by
  unfold leave
  simp only
  split
  · rename_i hj
    subst hj
    rw [List.getElem?_append_right (Nat.le_refl _), Nat.sub_self]
    simp only [List.getElem?_cons_zero, Option.some.injEq, HostThread.fulfilment.injEq]
    exact eq_comm
  · rename_i hj
    rcases Nat.lt_or_gt_of_ne hj with hlt | hgt
    · rw [List.getElem?_append_left hlt]
    · rw [List.getElem?_eq_none (by simp; omega), List.getElem?_eq_none (by omega)]

/-! ## One event -/

/-- No execution comes about or goes away, and none goes back to an earlier state. -/
structure Onward (h h' : Host) : Prop where
  length : h'.executions.length = h.executions.length
  older : ∀ id e', h'.execution? id = some e' → ∃ e, h.execution? id = some e ∧ e'.threadName = e.threadName ∧
    (e'.state ≠ .finished → e.state ≠ .finished) ∧ (e'.state = .created → e.state = .created) ∧
    e'.token = e.token

theorem Onward.newer {h h' : Host} (ho : h.Onward h') {id : ExecutionId} {e : Execution}
    (he : h.execution? id = some e) : ∃ e', h'.execution? id = some e' ∧ e'.threadName = e.threadName := by
  have hlt : id < h'.executions.length := by
    rw [ho.length]
    exact (List.getElem?_eq_some_iff.1 he).1
  obtain ⟨x, hx, hn, -⟩ := ho.older id _ (List.getElem?_eq_getElem hlt)
  rw [he, Option.some.injEq] at hx
  subst hx
  exact ⟨_, List.getElem?_eq_getElem hlt, hn⟩

theorem onward_of_eq {h h' : Host} (he : h'.executions = h.executions) : h.Onward h' := by
  refine ⟨by rw [he], fun id e' h1 => ⟨e', ?_, rfl, fun hn => hn, fun hc => hc, rfl⟩⟩
  unfold execution? at h1 ⊢
  rw [← he]; exact h1

theorem Onward.withThreads {h k : Host} (ho : h.Onward k) (ts : List HostThread) :
    h.Onward { k with threads := ts } := ⟨ho.length, ho.older⟩

theorem onward_start (h : Host) (id : ExecutionId) : h.Onward (h.start id).2 := by
  refine ⟨start_length h id, fun j e' h1 => ?_⟩
  have hlt : j < h.executions.length := by
    rw [← start_length h id]
    exact (List.getElem?_eq_some_iff.1 h1).1
  have he : h.execution? j = some h.executions[j] := List.getElem?_eq_getElem hlt
  obtain ⟨x, hx, ha⟩ := ages_start h id j _ he
  rw [h1, Option.some.injEq] at hx
  subst hx
  exact ⟨_, he, ha.threadName, ha.unfinished, fun hc => by rw [← ha.created hc]; exact hc, ha.token⟩

theorem sameOrders_start (h : Host) (id : ExecutionId) : h.SameOrders (h.start id).2 := by
  rcases start_cases h id with ⟨-, hs⟩ | ⟨e, -, -, ⟨text, -, hs⟩ | ⟨-, hs⟩⟩ <;> rw [hs]
  · exact sameOrders_of_threads_eq rfl
  · exact sameOrders_of_threads_eq rfl
  · refine sameOrders_append rfl fun t ht g hg => ?_
    rw [List.mem_singleton] at ht
    rw [ht] at hg; cases hg

theorem quiet_requestStop (h : Host) (id : ExecutionId) : h.Quiet (h.requestStop id) := by
  unfold requestStop
  split
  · exact quiet_stopToken h _
  · exact Quiet.refl h

/-- What an event does that is neither an arrival, a start nor a move of a fulfilment: executions may
come to their end and stop flags may go up. -/
structure Aside (h h' : Host) : Prop where
  registry : h'.registry = h.registry
  length : h'.executions.length = h.executions.length
  older : ∀ id e', h'.execution? id = some e' → ∃ e, h.execution? id = some e ∧ (e' = e ∨ ∃ o, e' = e.finish o)
  orders : h.SameOrders h'
  tokens : h'.tokens.length = h.tokens.length
  flags : ∀ t, h.isStopped t = true → h'.isStopped t = true

theorem Quiet.aside {h h' : Host} (q : h.Quiet h') : h.Aside h' := by
  refine ⟨q.registry, by rw [q.executions], fun id e' he => ⟨e', ?_, .inl rfl⟩, q.sameOrders, q.tokens, q.flags⟩
  unfold execution? at he ⊢
  rw [← q.executions]; exact he

theorem aside_of_eq {h h' : Host} (hr : h'.registry = h.registry) (he : h'.executions = h.executions)
    (ht : h'.tokens = h.tokens) (hq : h.SameOrders h') : h.Aside h' := by
  refine ⟨hr, by rw [he], fun id e h1 => ⟨e, ?_, .inl rfl⟩, hq, by rw [ht], fun t h1 => ?_⟩
  · unfold execution? at h1 ⊢
    rw [← he]; exact h1
  · unfold isStopped token? at h1 ⊢
    rw [ht]; exact h1

theorem aside_setExecution {h : Host} {id : ExecutionId} {e : Execution} (he : h.execution? id = some e)
    (o : Outcome) : h.Aside (h.setExecution id (e.finish o)) := by
  refine ⟨rfl, List.length_set, fun j e' hj => ?_, sameOrders_of_threads_eq rfl, rfl, fun _ ht => ht⟩
  rw [execution?_setExecution he] at hj
  split at hj
  · rename_i hji
    cases hj
    exact ⟨e, hji ▸ he, .inr ⟨o, rfl⟩⟩
  · exact ⟨e', hj, .inl rfl⟩

theorem aside_finish (h : Host) (id : ExecutionId) (ending : Ending) : h.Aside (h.finish id ending) := by
  unfold finish
  split
  · exact (Quiet.refl h).aside
  · rename_i e he
    have ha := aside_setExecution he ending.outcome
    exact ⟨ha.registry, ha.length, ha.older, ha.orders, ha.tokens, ha.flags⟩

theorem Aside.onward {h h' : Host} (ha : h.Aside h') : h.Onward h' := by
  refine ⟨ha.length, fun id e' he => ?_⟩
  obtain ⟨e, h1, rfl | ⟨o, rfl⟩⟩ := ha.older id e' he
  · exact ⟨_, h1, rfl, fun hn => hn, fun hc => hc, rfl⟩
  · exact ⟨e, h1, rfl, fun hn => absurd rfl hn, fun hc => (by cases hc), rfl⟩

theorem Aside.forward {h h' : Host} (ha : h.Aside h') {id : ExecutionId} {e : Execution}
    (he : h.execution? id = some e) : h'.execution? id = some e ∨ ∃ o, h'.execution? id = some (e.finish o) := by
  have hlt : id < h'.executions.length := by
    rw [ha.length]
    exact (List.getElem?_eq_some_iff.1 he).1
  have h1 : h'.execution? id = some h'.executions[id] := List.getElem?_eq_getElem hlt
  obtain ⟨e0, h0, hsame⟩ := ha.older id _ h1
  cases he.symm.trans h0
  rcases hsame with hsame | ⟨o, hsame⟩
  · exact .inl (hsame ▸ h1)
  · exact .inr ⟨o, hsame ▸ h1⟩

/-- The thread that moved is stored again, and was and is no fulfilment. -/
theorem Aside.setThread {h k : Host} {i : ThreadId} {t t' : HostThread} (ha : h.Aside k)
    (hi : h.threads[i]? = some t) (hk : ∃ new, k.threads = h.threads ++ new) (hn : ∀ g, t ≠ .fulfilment g)
    (hn' : ∀ g, t' ≠ .fulfilment g) : h.Aside { k with threads := k.threads.set i t' } := by
  obtain ⟨new, hnew⟩ := hk
  exact ⟨ha.registry, ha.length, ha.older,
    ha.orders.trans (sameOrders_set (getElem?_of_append hnew hi) hn hn'), ha.tokens, ha.flags⟩

/-- A thread that moves fulfils an order, or leaves the registry and the fulfilments alone. -/
theorem step_aside {h h' : Host} {i : ThreadId} (hs : h.step i = some h') :
    (h.Aside h' ∧ ∀ f, h.threads[i]? ≠ some (.fulfilment f)) ∨
    ∃ f k p, h.threads[i]? = some (.fulfilment f) ∧ f.Moves h k p ∧
      h' = { k with threads := k.threads.set i (.fulfilment { f with phase := p }) } := by
  obtain ⟨t, k, t', hi, hk, rfl⟩ := step_eq_some hs
  -- the thread is no fulfilment, and becomes none
  have aside (ha : h.Aside k) (hnew : ∃ new, k.threads = h.threads ++ new) (hn : ∀ g, t ≠ .fulfilment g)
      (hn' : ∀ g, t' ≠ .fulfilment g) :
      h.Aside { k with threads := k.threads.set i t' } ∧ ∀ f, h.threads[i]? ≠ some (.fulfilment f) := by
    refine ⟨ha.setThread hi hnew hn hn', fun f hf => ?_⟩
    rw [hi, Option.some.injEq] at hf
    exact hn f hf
  have quietly (q : h.Quiet k) := aside q.aside (q.threads.imp fun _ h => h.1)
  rcases HostThread.step_cases hk with ⟨id, ending, rfl, rfl, rfl⟩ | ⟨id, w, w', rfl, rfl, q⟩ |
    ⟨f, p, rfl, rfl, hm⟩ | ⟨s, s', rfl, rfl, hq⟩ | ⟨r, s, s', rfl, rfl, q⟩
  · refine .inl (aside (aside_finish h id ending) ⟨[], ?_⟩ (fun _ h => by cases h) fun _ h => by cases h)
    rw [finish_threads, List.append_nil]
  · exact .inl (quietly q (fun _ h => by cases h) fun _ h => by cases h)
  · exact .inr ⟨f, k, p, hi, hm, rfl⟩
  · exact .inl (quietly (StopAll.quiet_step hq) (fun _ h => by cases h) fun _ h => by cases h)
  · exact .inl (quietly q (fun _ h => by cases h) fun _ h => by cases h)

/-- A thread that fulfils an order and moves. -/
theorem order_turn {h h' : Host} {i : ThreadId} {f : Fulfilment} (hi : h.threads[i]? = some (.fulfilment f))
    (hs : h.step i = some h') :
    ∃ k p, f.Moves h k p ∧ h' = { k with threads := k.threads.set i (.fulfilment { f with phase := p }) } ∧
      h'.threads[i]? = some (.fulfilment { f with phase := p }) := by
  rcases step_aside hs with ⟨-, hn⟩ | ⟨g, k, p, hj, hm, rfl⟩
  · exact absurd hi (hn f)
  · cases hi.symm.trans hj
    exact ⟨k, p, hm, rfl, moved_self hi hm⟩

/-- What one event is to the registry, the executions and the fulfilments. -/
theorem after?_cases {h h' : Host} {ev : Event} (hs : h.after? ev = some h') :
    (h.Aside h' ∧ (∀ id, ev ≠ .start id) ∧ ∀ i f, ev = .move i → h.threads[i]? ≠ some (.fulfilment f)) ∨
    (∃ id, ev = .start id ∧ h' = (h.start id).2) ∨
    (∃ o starts, ev = .order o starts ∧ h' = (h.leave o starts).2) ∨
    (∃ i f k p, ev = .move i ∧ h.threads[i]? = some (.fulfilment f) ∧ f.Moves h k p ∧
      h' = { k with threads := k.threads.set i (.fulfilment { f with phase := p }) }) := by
  cases ev with
  | order o starts => cases hs; exact .inr (.inr (.inl ⟨o, starts, rfl, rfl⟩))
  | start id => cases hs; exact .inr (.inl ⟨id, rfl, rfl⟩)
  | move i =>
    rcases step_aside hs with ⟨ha, hn⟩ | ⟨f, k, p, hi, hm, hk⟩
    · refine .inl ⟨ha, fun _ h => (by cases h), fun j f hj => ?_⟩
      cases hj
      exact hn f
    · exact .inr (.inr (.inr ⟨i, f, k, p, rfl, hi, hm, hk⟩))
  | stop id =>
    cases hs
    exact .inl ⟨(quiet_requestStop h id).aside, fun _ h => (by cases h), fun _ _ h => by cases h⟩
  | stopAll =>
    cases hs
    refine .inl ⟨aside_of_eq rfl rfl rfl (sameOrders_append rfl fun t ht g hg => ?_), fun _ h => (by cases h),
      fun _ _ h => by cases h⟩
    rw [List.mem_singleton] at ht
    rw [ht] at hg; cases hg
  | elapse | surroundings =>
    cases hs
    exact .inl ⟨aside_of_eq rfl rfl rfl (sameOrders_of_threads_eq rfl), fun _ h => (by cases h),
      fun _ _ h => by cases h⟩

/-- An event is an arrival, a move of a fulfilment, or leaves the registry and the fulfilments alone. -/
theorem after?_orders {h h' : Host} {ev : Event} (hs : h.after? ev = some h') :
    (h'.registry = h.registry ∧ h.Onward h' ∧ h.SameOrders h') ∨
    (∃ o starts, ev = .order o starts ∧ h' = (h.leave o starts).2) ∨
    (∃ i f k p, ev = .move i ∧ h.threads[i]? = some (.fulfilment f) ∧ f.Moves h k p ∧
      h' = { k with threads := k.threads.set i (.fulfilment { f with phase := p }) }) := by
  rcases after?_cases hs with ⟨ha, -⟩ | ⟨id, -, rfl⟩ | hc | hc
  · exact .inl ⟨ha.registry, ha.onward, ha.orders⟩
  · exact .inl ⟨start_registry h id, onward_start h id, sameOrders_start h id⟩
  · exact .inr (.inl hc)
  · exact .inr (.inr hc)

/-! ## Where runs begin -/

/-- A host on which nothing has been asked for yet. -/
structure Fresh (h : Host) : Prop where
  executions : h.executions = []
  registry : h.registry = {}
  threads : h.threads = []

/-- A host for which every source is a script that does nothing. -/
def plain : Host where
  environment := {
    resolve := fun id => .ok [{ id, text := "" }]
    compile := fun _ _ => .done (some fun _ _ _ => .done (.value .void)) }

/-- An order for one of its scripts. -/
def job : Order := { threadName := "job", sourceId := "s" }

theorem fresh_plain : plain.Fresh := ⟨rfl, rfl, rfl⟩

end Scripting.Host
