/-
The tokens of builds and of executions. A build enters a token of its own in the table and takes it out
again; an execution that is registered gets yet another. So whatever happens, a token that is in the table
is no execution's, and a thread that builds finds the token of its build there under its name (`Ledger`).
-/
import Scripting.Proofs.Registry.Sequence

namespace Scripting

namespace Fulfilment

/-- The token of the build, while sources are looked for and compiled. -/
def Phase.buildToken? : Phase → Option TokenId
  | .resolve t | .compile t _ => some t
  | _ => none

theorem Phase.holdsLock_of_isAnnounced {p : Phase} (h : p.isAnnounced) : p.holdsLock := by
  cases p <;> trivial

theorem Phase.isAnnounced_of_buildToken? {p : Phase} {t : TokenId} (h : p.buildToken? = some t) : p.isAnnounced := by
  cases p <;> trivial

theorem buildToken?_found (f : Fulfilment) (id : ExecutionId) : (f.found id).buildToken? = none := by
  unfold found
  split <;> rfl

section

variable {h k : Host} {f : Fulfilment} {p : Phase}

theorem Moves.buildToken? (hm : Moves h f k p) {t : TokenId} (ht : p.buildToken? = some t) :
    (f.phase.buildToken? = some t ∧ k.registry.compiling = h.registry.compiling) ∨
    k.registry.compiling = Assoc.insert f.name t h.registry.compiling := by
  cases hm with
  | announce =>
    cases ht
    exact .inr rfl
  | resolved hp => exact .inl ⟨by rw [hp]; exact ht, rfl⟩
  | compiling hp hw => exact .inl ⟨by rw [hp]; exact ht, by rw [(Activity.quiet_step hw).registry]⟩
  | found => rw [buildToken?_found] at ht; cases ht
  | @retract result _ => cases result <;> cases ht
  | @release result _ =>
    cases result with
    | error e => cases ht
    | ok id => rw [buildToken?_found] at ht; cases ht
  | start => cases hr : (h.start _).1 <;> rw [hr] at ht <;> cases ht
  | missed | lock | foundAgain | missedAgain | unresolved | compiled | register => cases ht

/-- No move lowers a flag. -/
theorem Moves.flags (hm : Moves h f k p) {t : TokenId} (ht : h.isStopped t = true) : k.isStopped t = true := by
  have hmore {k' : Host} {new : List (StopToken WokenChannel)} (hk : k'.tokens = h.tokens ++ new) :
      k'.isStopped t = true := by
    obtain ⟨s, hs, hst⟩ := Host.isStopped_iff.1 ht
    refine Host.isStopped_iff.2 ⟨s, ?_, hst⟩
    rw [hk, List.getElem?_append_left (List.getElem?_eq_some_iff.1 hs).1]
    exact hs
  cases hm with
  | compiling _ hw => exact (Activity.quiet_step hw).flags t ht
  | start =>
    unfold Host.isStopped Host.token? at ht ⊢
    rw [Host.start_tokens]
    exact ht
  | announce => exact hmore rfl
  | register => exact hmore rfl
  | _ => exact ht

end

end Fulfilment

namespace Host

/-! ## One event -/

section

variable {h h' : Host} {ev : Event}

theorem start_flags (h : Host) (id : ExecutionId) (t : TokenId) : (h.start id).2.isStopped t = h.isStopped t := by
  unfold isStopped token?
  rw [start_tokens]

/-- No flag goes down. -/
theorem after?_flags (hs : h.after? ev = some h') {t : TokenId} (ht : h.isStopped t = true) : h'.isStopped t = true := by
  rcases after?_cases hs with ⟨ha, -⟩ | ⟨id, -, rfl⟩ | ⟨o, starts, -, rfl⟩ | ⟨i, f, k, p, -, -, hm, rfl⟩
  · exact ha.flags t ht
  · rw [start_flags]; exact ht
  · exact ht
  · exact hm.flags ht

theorem after?_tokens (hs : h.after? ev = some h') : h.tokens.length ≤ h'.tokens.length := by
  rcases after?_cases hs with ⟨ha, -⟩ | ⟨id, -, rfl⟩ | ⟨o, starts, -, rfl⟩ | ⟨i, f, k, p, -, -, hm, rfl⟩
  · exact Nat.le_of_eq ha.tokens.symm
  · exact Nat.le_of_eq (by rw [start_tokens])
  · exact Nat.le_refl _
  · exact hm.tokens

/-- Every execution stays, with its token. -/
theorem after?_token (hs : h.after? ev = some h') {id : ExecutionId} {e : Execution} (he : h.execution? id = some e) :
    ∃ e', h'.execution? id = some e' ∧ e'.token = e.token := by
  rcases after?_record hs with ⟨-, ho⟩ | ⟨i, f, unit, -, -, -, -, hx⟩
  · obtain ⟨e', he', -⟩ := ho.newer he
    obtain ⟨e0, h0, -, -, -, ht⟩ := ho.older id e' he'
    rw [he] at h0
    cases h0
    exact ⟨e', he', ht⟩
  · exact ⟨e, by rw [hx]; exact execution?_registerExecution_of_some he f.order unit, rfl⟩

theorem execution?_of_passes {between : Event → Prop} {k : Host} (hp : Passes between h k) {id : ExecutionId}
    {e : Execution} (he : h.execution? id = some e) : ∃ e', k.execution? id = some e' ∧ e'.token = e.token := by
  induction hp with
  | refl => exact ⟨e, he, rfl⟩
  | tail _ hs ih =>
    obtain ⟨e1, h1, ht1⟩ := ih
    obtain ⟨ev, -, hs⟩ := hs
    obtain ⟨e2, h2, ht2⟩ := after?_token hs h1
    exact ⟨e2, h2, ht2.trans ht1⟩

theorem after?_executions (hs : h.after? ev = some h') : h.executions.length ≤ h'.executions.length := by
  by_contra hlt
  -- the first that is missing would have been there
  obtain ⟨e', he', -⟩ := after?_token hs (List.getElem?_eq_getElem (Nat.not_le.1 hlt))
  exact Nat.lt_irrefl _ (List.getElem?_eq_some_iff.1 he').1

theorem Tokened.after (ht : h.Tokened) (hs : h.after? ev = some h') : h'.Tokened := by
  have hl := after?_tokens hs
  rcases after?_cases hs with ⟨ha, -⟩ | ⟨id, -, rfl⟩ | ⟨o, starts, -, rfl⟩ | ⟨i, f, k, p, -, -, hm, rfl⟩
  · exact ha.onward.tokened hl ht
  · exact (onward_start h id).tokened hl ht
  · exact ⟨ht.there, ht.distinct⟩
  · rcases hm.record with ⟨he, -⟩ | ⟨unit, -, rfl, -⟩ | ⟨id, -, rfl, -⟩
    · exact ((onward_of_eq he).withThreads _).tokened hl ht
    · exact ⟨(ht.register f.order unit).there, (ht.register f.order unit).distinct⟩
    · exact ((onward_start h id).withThreads _).tokened hl ht

/-- A thread changes only by a move of its own. -/
theorem after?_thread (hs : h.after? ev = some h') {j : ThreadId} {t : HostThread} (hj : h.threads[j]? = some t)
    (hn : ev ≠ .move j) : h'.threads[j]? = some t := by
  cases ev with
  | order | stopAll =>
    cases hs
    exact getElem?_of_append rfl hj
  | start id =>
    cases hs
    rcases start_cases h id with ⟨-, hs⟩ | ⟨e, -, -, ⟨text, -, hs⟩ | ⟨-, hs⟩⟩ <;> rw [hs]
    · exact hj
    · exact hj
    · exact getElem?_of_append rfl hj
  | stop id =>
    cases hs
    obtain ⟨new, hnew, -⟩ := (quiet_requestStop h id).threads
    exact getElem?_of_append hnew hj
  | elapse | surroundings => cases hs; exact hj
  | move i =>
    obtain ⟨t0, k, t', hi, hk, rfl⟩ := step_eq_some hs
    have hji : i ≠ j := fun h => hn (by rw [h])
    have hnew : ∃ new, k.threads = h.threads ++ new := by
      rcases HostThread.step_cases hk with ⟨id, ending, -, rfl, -⟩ | ⟨id, w, w', -, -, q⟩ | ⟨f, p, -, -, hm⟩ |
        ⟨s, s', -, -, hq⟩ | ⟨r, s, s', -, -, q⟩
      · exact ⟨[], by rw [finish_threads, List.append_nil]⟩
      · exact q.threads.imp fun _ h => h.1
      · exact hm.threads.imp fun _ h => h.1
      · exact (StopAll.quiet_step hq).threads.imp fun _ h => h.1
      · exact q.threads.imp fun _ h => h.1
    obtain ⟨new, hnew⟩ := hnew
    simp only
    rw [List.getElem?_set_ne hji]
    exact getElem?_of_append hnew hj

end

/-! ## The ledger -/

structure Ledger (h : Host) : Prop where
  seated : h.Seated
  listed : ∀ id ∈ h.registry.entries.map Prod.snd, id < h.executions.length
  tokened : h.Tokened
  entered : ∀ (i : ThreadId) (f : Fulfilment) t, h.threads[i]? = some (.fulfilment f) → f.phase.buildToken? = some t →
    Assoc.find? f.name h.registry.compiling = some t
  builds : ∀ t ∈ h.registry.compiling.map Prod.snd, t < h.tokens.length ∧ ∀ id e, h.execution? id = some e → e.token ≠ t

theorem ledger_fresh {h : Host} (hf : h.Fresh) : h.Ledger := by
  have ht : ∀ (i : ThreadId) t, h.threads[i]? ≠ some t := by intro i t; rw [hf.threads]; exact nofun
  have he : ∀ id e, h.execution? id ≠ some e := by
    intro id e; unfold execution?; rw [hf.executions]; exact nofun
  refine ⟨fun i f hi => absurd hi (ht i _), fun id hid => ?_,
    ⟨fun id e h1 => absurd h1 (he id e), fun a _ ea _ h1 => absurd h1 (he a ea)⟩,
    fun i f t hi => absurd hi (ht i _), fun t htm => ?_⟩
  · rw [hf.registry] at hid
    cases hid
  · rw [hf.registry] at htm
    cases htm

section

variable {h h' k : Host} {ev : Event} {f : Fulfilment} {p : Fulfilment.Phase}

/-- What is registered under a name is there. -/
theorem Ledger.registered (hl : h.Ledger) {n : String} {id : ExecutionId} (hn : h.registered? n = some id) :
    ∃ e, h.execution? id = some e :=
  ⟨_, List.getElem?_eq_getElem (hl.listed id (List.mem_map_of_mem (f := Prod.snd) (Assoc.mem_of_find? hn)))⟩

theorem listed_after (hl : h.Ledger) (hs : h.after? ev = some h') :
    ∀ id ∈ h'.registry.entries.map Prod.snd, id < h'.executions.length := by
  intro id hid
  rcases after?_orders hs with ⟨hr, ho, -⟩ | ⟨o, starts, -, rfl⟩ | ⟨i, f, k, p, -, -, hm, rfl⟩
  · rw [ho.length]
    rw [hr] at hid
    exact hl.listed id hid
  · exact hl.listed id hid
  · rcases hm.record with ⟨he, hr⟩ | ⟨unit, -, rfl, -⟩ | ⟨j, -, rfl, -⟩
    · rw [show ({ k with threads := _ } : Host).executions = h.executions from he]
      rw [show ({ k with threads := _ } : Host).registry.entries = h.registry.entries from hr] at hid
      exact hl.listed id hid
    · -- what is registered anew is the last execution
      obtain ⟨⟨n, j⟩, hm, rfl⟩ := List.mem_map.1 hid
      simp only [registerExecution, newToken, List.length_append, List.length_singleton] at hm ⊢
      rcases Assoc.mem_insert hm with hm | hm
      · cases hm
        exact Nat.lt_succ_self _
      · exact Nat.lt_succ_of_lt (hl.listed j (List.mem_map_of_mem (f := Prod.snd) hm))
    · simp only [start_registry, start_length] at hid ⊢
      exact hl.listed id hid

theorem builds_moves (hl : h.Ledger) (hm : f.Moves h k p) :
    ∀ t ∈ k.registry.compiling.map Prod.snd, t < k.tokens.length ∧ ∀ id e, k.execution? id = some e → e.token ≠ t := by
  intro t ht
  cases hm with
  | compiling _ hw =>
    have q := Activity.quiet_step hw
    rw [q.registry] at ht
    unfold execution?
    rw [q.tokens, q.executions]
    exact hl.builds t ht
  | @start id _ =>
    rw [start_registry] at ht
    obtain ⟨hlt, hne⟩ := hl.builds t ht
    refine ⟨by rw [start_tokens]; exact hlt, fun j e he htok => ?_⟩
    obtain ⟨e0, h0, -, -, -, h1⟩ := (onward_start h id).older j e he
    exact hne j e0 h0 (h1.symm.trans htok)
  | @register unit hp =>
    obtain ⟨hlt, hne⟩ := hl.builds t ht
    refine ⟨Nat.lt_of_lt_of_le hlt (Fulfilment.Moves.register hp).tokens, fun j e he htok => ?_⟩
    rw [execution?_registerExecution] at he
    split at he
    · cases he
      exact Nat.ne_of_lt hlt htok.symm
    · exact hne j e he htok
  | announce =>
    -- the token that is entered is new
    obtain ⟨⟨n, t'⟩, hm, rfl⟩ := List.mem_map.1 ht
    simp only [newToken, List.length_append, List.length_singleton]
    rcases Assoc.mem_insert hm with hm | hm
    · cases hm
      exact ⟨Nat.lt_succ_self _, fun j e he => Nat.ne_of_lt (hl.tokened.there j e he)⟩
    · obtain ⟨hlt, hne⟩ := hl.builds t' (List.mem_map_of_mem (f := Prod.snd) hm)
      exact ⟨Nat.lt_succ_of_lt hlt, hne⟩
  | retract =>
    obtain ⟨x, hm, rfl⟩ := List.mem_map.1 ht
    exact hl.builds _ (List.mem_map_of_mem (f := Prod.snd) (List.mem_filter.1 hm).1)
  | _ => exact hl.builds t ht

/-- A move of one thread leaves the token of another thread's build alone. -/
theorem Seated.token_of_other (hseat : h.Seated) {i j : ThreadId} {g : Fulfilment}
    (hi : h.threads[i]? = some (.fulfilment f)) (hm : f.Moves h k p) (hj : h.threads[j]? = some (.fulfilment g))
    (hg : g.phase.isAnnounced) (hji : j ≠ i) :
    Assoc.find? g.name k.registry.compiling = Assoc.find? g.name h.registry.compiling := by
  -- no other thread builds for the name
  have hne (hlock : f.phase.holdsLock) : g.name ≠ f.name := fun hn =>
    hji (hseat.eq_of_holdsLock hj hi hn (Fulfilment.Phase.holdsLock_of_isAnnounced hg) hlock)
  rcases hm.announced with ⟨hk, -⟩ | ⟨hp, -, hk⟩ | ⟨hp, hk, -⟩ <;> rw [hk]
  · exact Assoc.find?_insert_of_ne (hne (by rw [hp]; trivial)) _ _
  · exact Assoc.find?_erase_of_ne (hne (Fulfilment.Phase.holdsLock_of_isAnnounced hp)) _

theorem entered_moves (hl : h.Ledger) {i : ThreadId} (hi : h.threads[i]? = some (.fulfilment f)) (hm : f.Moves h k p)
    {j : ThreadId} {g : Fulfilment} {t : TokenId}
    (hj : (k.threads.set i (.fulfilment { f with phase := p }))[j]? = some (.fulfilment g))
    (ht : g.phase.buildToken? = some t) : Assoc.find? g.name k.registry.compiling = some t := by
  rw [orders_after_move hi hm] at hj
  split at hj
  · subst hj
    rcases hm.buildToken? ht with ⟨hf, hk⟩ | hk
    · rw [hk]; exact hl.entered i f t hi hf
    · rw [hk]; exact Assoc.find?_insert_self _ _ _
  · rename_i hji
    rw [hl.seated.token_of_other hi hm hj (Fulfilment.Phase.isAnnounced_of_buildToken? ht) hji]
    exact hl.entered j g t hj ht

theorem Ledger.after (hl : h.Ledger) (hs : h.after? ev = some h') : h'.Ledger := by
  refine ⟨seated_after hs hl.seated, listed_after hl hs, hl.tokened.after hs, fun j g t hj ht => ?_, fun t ht => ?_⟩
  · rcases after?_orders hs with ⟨hr, -, hq⟩ | ⟨o, starts, rfl, rfl⟩ | ⟨i, f, k, p, rfl, hi, hm, rfl⟩
    · rw [hr]
      exact hl.entered j g t ((hq j g).1 hj) ht
    · rw [orders_after_arrival] at hj
      split at hj
      · subst hj; cases ht
      · exact hl.entered j g t hj ht
    · exact entered_moves hl hi hm hj ht
  · rcases after?_cases hs with ⟨ha, -⟩ | ⟨id, -, rfl⟩ | ⟨o, starts, -, rfl⟩ | ⟨i, f, k, p, -, -, hm, rfl⟩
    · rw [ha.registry] at ht
      obtain ⟨hlt, hne⟩ := hl.builds t ht
      refine ⟨by rw [ha.tokens]; exact hlt, fun id e he htok => ?_⟩
      obtain ⟨e0, h0, -, -, -, h1⟩ := ha.onward.older id e he
      exact hne id e0 h0 (h1.symm.trans htok)
    · rw [start_registry] at ht
      obtain ⟨hlt, hne⟩ := hl.builds t ht
      refine ⟨by rw [start_tokens]; exact hlt, fun j e he htok => ?_⟩
      obtain ⟨e0, h0, -, -, -, h1⟩ := (onward_start h id).older j e he
      exact hne j e0 h0 (h1.symm.trans htok)
    · exact hl.builds t ht
    · exact builds_moves hl hm t ht

theorem ledger_of_passes {between : Event → Prop} (hl : h.Ledger) (hp : Passes between h k) : k.Ledger := by
  induction hp with
  | refl => exact hl
  | tail _ hs ih =>
    obtain ⟨ev, -, hs⟩ := hs
    exact ih.after hs

end

end Host

end Scripting
