/-
What routines, pollers and stop requests leave alone. Whatever a routine asks its host for, and
however a poll or a stop request goes on, the surroundings, the registry and the executions stay as
they are; threads only come to serve streams, and a stop flag that is up stays up.
-/
import Scripting.Proofs.Channel.Moves
import Mathlib.Data.List.Basic

namespace Scripting

/-- What a change of a host that concerns no execution may do. -/
structure Host.Quiet (h h' : Host) : Prop where
  environment : h'.environment = h.environment
  registry : h'.registry = h.registry
  executions : h'.executions = h.executions
  threads : ∃ new, h'.threads = h.threads ++ new ∧ ∀ t ∈ new, t.isNetwork = true
  tokens : h'.tokens.length = h.tokens.length
  flags : ∀ t, h.isStopped t = true → h'.isStopped t = true

namespace Host

theorem Quiet.refl (h : Host) : h.Quiet h :=
  ⟨rfl, rfl, rfl, ⟨[], by simp, by simp⟩, rfl, fun _ => id⟩

theorem Quiet.trans {a b c : Host} (h1 : a.Quiet b) (h2 : b.Quiet c) : a.Quiet c := by
  obtain ⟨n1, e1, s1⟩ := h1.threads
  obtain ⟨n2, e2, s2⟩ := h2.threads
  refine ⟨h2.environment.trans h1.environment, h2.registry.trans h1.registry,
    h2.executions.trans h1.executions, ⟨n1 ++ n2, by rw [e2, e1, List.append_assoc], ?_⟩,
    h2.tokens.trans h1.tokens, fun t ht => h2.flags t (h1.flags t ht)⟩
  intro t ht
  rcases List.mem_append.1 ht with ht | ht
  · exact s1 t ht
  · exact s2 t ht

/-- A fold of quiet changes is quiet. -/
theorem quiet_foldl {α : Type} (f : Host → α → Host) (hf : ∀ (h : Host) a, h.Quiet (f h a))
    (l : List α) (h : Host) :
    h.Quiet (l.foldl f h) := by
  induction l generalizing h with
  | nil => exact Quiet.refl h
  | cons a l ih => exact (hf h a).trans (ih (f h a))

/-! ## Parts of a host that say nothing of executions -/

theorem quiet_bus (h : Host) (b : Bus) : h.Quiet { h with bus := b } :=
  ⟨rfl, rfl, rfl, ⟨[], by simp, by simp⟩, rfl, fun _ => id⟩

theorem quiet_client (h : Host) (c : Net.Client) : h.Quiet { h with client := c } :=
  ⟨rfl, rfl, rfl, ⟨[], by simp, by simp⟩, rfl, fun _ => id⟩

theorem quiet_traffic (h : Host) (lines : Option (List String)) : h.Quiet { h with traffic := lines } :=
  ⟨rfl, rfl, rfl, ⟨[], by simp, by simp⟩, rfl, fun _ => id⟩

theorem quiet_logged (h : Host) (events : List Log.Event) : h.Quiet (h.logged events) :=
  ⟨rfl, rfl, rfl, ⟨[], by simp [logged], by simp⟩, rfl, fun _ => id⟩

theorem quiet_post (h : Host) (channel event : String) (params : Option String) :
    h.Quiet (h.post channel event params) :=
  (quiet_bus h _).trans (quiet_logged _ _)

/-! ## Stop flags -/

theorem isStopped_iff {h : Host} {t : TokenId} :
    h.isStopped t = true ↔ ∃ s, h.tokens[t]? = some s ∧ s.stopped = true := by
  unfold isStopped token?
  cases h.tokens[t]? <;> simp

/-- Storing a token leaves every flag up that was up, if it leaves its own up. -/
theorem quiet_setToken {h : Host} {t : TokenId} {s : StopToken WokenChannel}
    (hs : h.isStopped t = true → s.stopped = true) : h.Quiet (h.setToken t s) := by
  refine ⟨rfl, rfl, rfl, ⟨[], by simp [setToken], by simp⟩, by simp [setToken], fun u hu => ?_⟩
  obtain ⟨k, hk, hst⟩ := isStopped_iff.1 hu
  rw [isStopped_iff]
  by_cases hut : t = u
  · subst hut
    refine ⟨s, ?_, hs hu⟩
    unfold setToken
    rw [List.getElem?_set_self (by rw [List.getElem?_eq_some_iff] at hk; exact hk.1)]
  · refine ⟨k, ?_, hst⟩
    unfold setToken
    rw [List.getElem?_set_ne hut]
    exact hk

theorem request_stopped {ω : Type} (t : StopToken ω) : t.request.1.stopped = true := by
  unfold StopToken.request
  split
  · assumption
  · rfl

theorem quiet_stopToken (h : Host) (t : TokenId) : h.Quiet (h.stopToken t) := by
  unfold stopToken
  split
  · exact Quiet.refl h
  · rename_i s hs
    exact (quiet_setToken fun _ => request_stopped s).trans (quiet_bus _ _)

/-! ## The network -/

theorem quiet_report (h : Host) (trace : List Net.Trace) : h.Quiet (h.report trace) := by
  refine quiet_foldl _ (fun (h : Host) t => ?_) trace h
  split
  · exact quiet_logged h _
  · split
    · exact quiet_traffic h _
    · exact quiet_logged h _

theorem quiet_settings (h : Host) : h.Quiet h.settings.2 := quiet_logged h _

theorem quiet_request (h : Host) (token : Option TokenId) (c : Net.Call) : h.Quiet (h.request token c).2 :=
  (quiet_settings h).trans (quiet_report _ _)

theorem quiet_openStream (h : Host) (c : Net.StreamCall) : h.Quiet (h.openStream c).2 := by
  have hq := quiet_settings h
  unfold openStream
  revert hq
  obtain ⟨s, h1⟩ := h.settings
  intro hq
  simp only
  split
  · exact hq
  · refine hq.trans ⟨rfl, rfl, rfl, ⟨[_], rfl, ?_⟩, rfl, fun _ => id⟩
    intro t ht
    rw [List.mem_singleton] at ht
    subst ht; rfl

theorem quiet_fulfilWish (h : Host) (handle : UInt32) (w : Net.Wish) : h.Quiet (h.fulfilWish handle w).2 :=
  quiet_client h _

theorem quiet_applyEffect (channel : String) (handle : UInt32) (h : Host) (e : Net.Stream.Effect) :
    h.Quiet (applyEffect channel handle h e) := by
  cases e with
  | forget => exact quiet_client h _
  | post event params => exact quiet_post h _ _ _
  | log e => exact quiet_logged h _

/-! ## Routines -/

theorem quiet_serve {h h' : Host} {seat : Seat} {d : Demand} {r : d.Answer}
    (hs : h.serve seat d = some (r, h')) : h.Quiet h' := by
  cases d <;> simp only [serve, Option.some.injEq, Prod.mk.injEq, reduceCtorEq] at hs
  case channel => exact hs.2 ▸ quiet_bus h _
  case post =>
    split at hs <;> simp only [Option.some.injEq, Prod.mk.injEq, reduceCtorEq] at hs
    exact hs.2 ▸ quiet_post h _ _ _
  case poll =>
    split at hs <;> simp only [Option.some.injEq, Prod.mk.injEq, reduceCtorEq] at hs
    exact hs.2 ▸ quiet_bus h _
  case request => rw [show h' = _ from (congrArg Prod.snd hs).symm]; exact quiet_request h _ _
  case openStream => rw [show h' = _ from (congrArg Prod.snd hs).symm]; exact quiet_openStream h _
  case send => rw [show h' = _ from (congrArg Prod.snd hs).symm]; exact quiet_fulfilWish h _ _
  case close => rw [show h' = _ from (congrArg Prod.snd hs).symm]; exact quiet_fulfilWish h _ _
  case currentThread => exact hs.2 ▸ Quiet.refl h
  case shapes => exact hs.2 ▸ Quiet.refl h
  case isStopped => exact hs.2 ▸ Quiet.refl h
  case stop => exact hs.2 ▸ quiet_stopToken h _
  case log => exact hs.2 ▸ quiet_logged h _
  case yield => exact hs.2 ▸ Quiet.refl h

theorem quiet_stepPoll {h h' : Host} {token : Option TokenId} {p p' : Poll}
    (hs : h.stepPoll token p = some (h', p')) : h.Quiet h' := by
  unfold stepPoll at hs
  obtain ⟨s, hp, hs⟩ := Option.map_eq_some_iff.1 hs
  have hb : h.Quiet { h with bus := h.bus.setChannel p.channel s.queue } := quiet_bus h _
  split at hs
  · rename_i t stop hstop _
    cases hs
    refine hb.trans (quiet_setToken fun hu => ?_)
    -- the flag that is stored is the one that the poller found
    obtain ⟨k, hk, hks⟩ := isStopped_iff.1 hu
    have := (Poll.moves_of_step hp).stopped
    rw [hstop] at this
    simp only [Option.bind_eq_bind, Option.bind_some, token?, Option.map_some] at this
    rw [show h.tokens[t]? = some k from hk] at this
    simpa [hks] using this
  · cases hs; exact hb

end Host

theorem Activity.quiet_step {α : Type} {seat : Seat} {h h' : Host} {a a' : Activity α}
    (hs : a.step seat h = some (h', a')) : h.Quiet h' := by
  unfold Activity.step at hs
  split at hs
  · cases hs
  · cases hs; exact Host.Quiet.refl h
  · cases hs; exact Host.quiet_bus h _
  · obtain ⟨⟨r, k⟩, hr, hs⟩ := Option.map_eq_some_iff.1 hs
    cases hs; exact Host.quiet_serve hr
  · split at hs
    · cases hs; exact Host.Quiet.refl h
    · obtain ⟨⟨k, q⟩, hr, hs⟩ := Option.map_eq_some_iff.1 hs
      cases hs; exact Host.quiet_stepPoll hr

/-! ## Stop requests -/

theorem StopRequest.quiet_step {h h' : Host} {r r' : StopRequest} (hs : r.step h = some (h', r')) :
    h.Quiet h' := by
  obtain ⟨hm, -⟩ := moves_of_step hs
  generalize r'.phase = phase at hm
  cases hm with
  | needless | list | finish => exact Host.Quiet.refl h
  | raise => exact Host.quiet_setToken fun _ => rfl
  | wake => exact Host.quiet_bus h _

theorem StopAll.quiet_step {h h' : Host} {s s' : StopAll} (hs : s.step h = some (h', s')) :
    h.Quiet h' := by
  unfold StopAll.step at hs
  split at hs
  · cases hs; exact Host.Quiet.refl h
  · cases hs; exact Host.Quiet.refl h
  · split at hs
    · cases hs; exact Host.Quiet.refl h
    · obtain ⟨⟨k, q⟩, hr, hs⟩ := Option.map_eq_some_iff.1 hs
      cases hs; exact StopRequest.quiet_step hr
  · cases hs

end Scripting
