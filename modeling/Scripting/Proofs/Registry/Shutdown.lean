/-
Stopping everything while a script is being built. Whoever wants everything stopped lists the executions
that are registered, then the tokens of what is being built, and raises the flags of all of these. What is
registered in time is stopped, and so is the token of a build that is still going on at the second list.
But that token is not the one of the execution that the build leads to: an execution that is registered
behind the first list is on none, and goes on with its flag down.

A token is doomed if its flag is up or will be raised (`Doomed`); nothing but the second list dooms one.
-/
import Scripting.Proofs.Registry.StopAll
import Scripting.Proofs.Registry.Tokens
import Scripting.Proofs.Channel.Moves

namespace Scripting

theorem StopAll.begun_of_step {h k : Host} {s s' : StopAll} (hs : s.step h = some (k, s')) : s' ≠ .start := by
  have behind_ne (left : List TokenId) : behind left ≠ .start := by cases left <;> exact nofun
  rcases step_cases hs with ⟨-, -, rfl⟩ | ⟨ids, -, -, rfl⟩ | ⟨r, left, -, -, -, rfl⟩ | ⟨r, r', left, -, -, rfl⟩
  · exact nofun
  · exact behind_ne _
  · exact behind_ne _
  · exact nofun

namespace Host

/-! ## What will be stopped -/

/-- A request to stop everything will still raise the flag of a token. -/
def Targets (h : Host) (u : TokenId) : StopAll → Prop
  | .start | .done => False
  | .listed ids => ∃ id ∈ ids, ∃ e, h.execution? id = some e ∧ e.token = u
  | .stopping r left => (u = r.token ∧ r.phase = .start) ∨ u ∈ left

def Doomed (h : Host) (s : StopAll) (u : TokenId) : Prop := h.isStopped u = true ∨ h.Targets u s

section

variable {h k : Host} {s s' : StopAll} {u : TokenId}

theorem targets_behind {left : List TokenId} : h.Targets u (.behind left) ↔ u ∈ left := by
  cases left with
  | nil => exact iff_of_false id List.not_mem_nil
  | cons t left =>
    unfold StopAll.behind Targets
    rw [List.mem_cons]
    simp

/-- Behind the first list, a move of the request dooms no token but those of the second. -/
theorem doomed_of_step (hs : s.step h = some (k, s')) (hn : s ≠ .start) (hd : k.Doomed s' u) :
    h.Doomed s u ∨ (∃ ids, s = .listed ids) ∧ u ∈ h.registry.compiling.map Prod.snd := by
  rcases StopAll.step_cases hs with ⟨rfl, -⟩ | ⟨ids, rfl, rfl, rfl⟩ | ⟨r, left, rfl, -, rfl, rfl⟩ |
    ⟨r, r', left, rfl, hr, rfl⟩
  · exact absurd rfl hn
  · rcases hd with hst | ht
    · exact .inl (.inl hst)
    · rw [targets_behind, List.mem_append, List.mem_filterMap] at ht
      rcases ht with ⟨id, hid, hm⟩ | ht
      · obtain ⟨e, he, rfl⟩ := Option.map_eq_some_iff.1 hm
        exact .inl (.inr ⟨id, hid, e, he, rfl⟩)
      · exact .inr ⟨⟨ids, rfl⟩, ht⟩
  · exact .inl (hd.imp_right fun ht => .inr (targets_behind.1 ht))
  · obtain ⟨hm, hr'⟩ := StopRequest.moves_of_step hr
    rcases hd with hst | ⟨-, hstart⟩ | hleft
    · rcases hm.isStopped u with hsame | ⟨hu, -, -, hstart, -⟩
      · exact .inl (.inl (hsame ▸ hst))
      · exact .inl (.inr (.inl ⟨hu, hstart⟩))
    · exact absurd hstart (StopRequest.step_flags hr).2.1
    · exact .inl (.inr (.inr hleft))

/-- A token that is doomed stays so, and the second list dooms those of the builds. -/
theorem doomed_step (hs : s.step h = some (k, s')) (hu : u < h.tokens.length)
    (hd : h.Doomed s u ∨ (∃ ids, s = .listed ids) ∧ u ∈ h.registry.compiling.map Prod.snd) : k.Doomed s' u := by
  have hflag (hst : h.isStopped u = true) : k.Doomed s' u := .inl ((StopAll.quiet_step hs).flags u hst)
  rcases StopAll.step_cases hs with ⟨rfl, rfl, rfl⟩ | ⟨ids, rfl, rfl, rfl⟩ | ⟨r, left, rfl, hdone, rfl, rfl⟩ |
    ⟨r, r', left, rfl, hr, rfl⟩
  · rcases hd with (hst | ht) | ⟨⟨ids, h⟩, -⟩
    · exact hflag hst
    · exact ht.elim
    · cases h
  · rcases hd with (hst | ⟨id, hid, e, he, rfl⟩) | ⟨-, hm⟩
    · exact hflag hst
    · exact .inr (targets_behind.2 (List.mem_append_left _ (List.mem_filterMap.2 ⟨id, hid, by rw [he]; rfl⟩)))
    · exact .inr (targets_behind.2 (List.mem_append_right _ hm))
  · rcases hd with (hst | ⟨-, hstart⟩ | hm) | ⟨⟨ids, h⟩, -⟩
    · exact hflag hst
    · rw [hdone] at hstart; cases hstart
    · exact .inr (targets_behind.2 hm)
    · cases h
  · rcases hd with (hst | ⟨rfl, hstart⟩ | hm) | ⟨⟨ids, h⟩, -⟩
    · exact hflag hst
    · exact .inl ((StopRequest.step_flags hr).2.2.1 hstart hu)
    · exact .inr (.inr hm)
    · cases h

/-! ## Whatever happens between -/

variable {h' : Host} {ev : Event} {j : ThreadId}

theorem stopAll_turn (hj : h.threads[j]? = some (.stopAll s)) (hs : h.step j = some h') :
    ∃ k s', s.step h = some (k, s') ∧ h' = { k with threads := k.threads.set j (.stopAll s') } ∧
      h'.threads[j]? = some (.stopAll s') := by
  obtain ⟨t, k, t', ht, hk, rfl⟩ := step_eq_some hs
  rw [hj] at ht
  cases ht
  obtain ⟨⟨k, s'⟩, hs', hk⟩ := Option.map_eq_some_iff.1 hk
  cases hk
  obtain ⟨new, hnew, -⟩ := (StopAll.quiet_step hs').threads
  exact ⟨k, s', hs', rfl, List.getElem?_set_self (List.getElem?_eq_some_iff.1 (getElem?_of_append hnew hj)).1⟩

theorem Targets.after (ht : h.Targets u s) (hs : h.after? ev = some h') : h'.Targets u s := by
  cases s with
  | start | done => exact ht
  | stopping r left => exact ht
  | listed ids =>
    obtain ⟨id, hid, e, he, rfl⟩ := ht
    obtain ⟨e', he', htok⟩ := after?_token hs he
    exact ⟨id, hid, e', he', htok⟩

/-- Whatever happens, a token that is doomed stays so. -/
theorem doomed_after (hj : h.threads[j]? = some (.stopAll s)) (hu : u < h.tokens.length) (hd : h.Doomed s u)
    (hs : h.after? ev = some h') : ∃ s', h'.threads[j]? = some (.stopAll s') ∧ h'.Doomed s' u := by
  by_cases hev : ev = .move j
  · subst hev
    obtain ⟨k, s', hstep, rfl, hj'⟩ := stopAll_turn hj hs
    have hd' : k.Doomed s' u := doomed_step hstep hu (.inl hd)
    exact ⟨s', hj', hd'⟩
  · exact ⟨s, after?_thread hs hj hev, hd.imp (after?_flags hs) (·.after hs)⟩

theorem stopped_of_doomed {between : Event → Prop} {z : Host} (hj : h.threads[j]? = some (.stopAll s))
    (hu : u < h.tokens.length) (hd : h.Doomed s u) (hp : Passes between h z) (hz : z.threads[j]? = some (.stopAll .done)) :
    z.isStopped u = true := by
  have hall : ∃ s', z.threads[j]? = some (.stopAll s') ∧ u < z.tokens.length ∧ z.Doomed s' u := by
    clear hz
    induction hp with
    | refl => exact ⟨s, hj, hu, hd⟩
    | tail _ hs ih =>
      obtain ⟨ev, -, hs⟩ := hs
      obtain ⟨s', hj, hu, hd⟩ := ih
      obtain ⟨s'', hj', hd'⟩ := doomed_after hj hu hd hs
      exact ⟨s'', hj', Nat.lt_of_lt_of_le hu (after?_tokens hs), hd'⟩
  obtain ⟨s', hj', -, hd'⟩ := hall
  rw [hz] at hj'
  cases hj'
  exact hd'.elim id False.elim

/-- A request to stop everything, from when it is there until it is through: the host as the executions are
listed, as the tokens of the builds are, and last. -/
structure Shutdown (between : Event → Prop) (j : ThreadId) (h a c z : Host) : Prop where
  begun : h.threads[j]? = some (.stopAll .start)
  before : Passes between h a
  lists : a.threads[j]? = some (.stopAll .start)
  meanwhile : ∃ b, a.step j = some b ∧ Passes between b c
  gathers : ∃ ids, c.threads[j]? = some (.stopAll (.listed ids))
  after : ∃ d, c.step j = some d ∧ Passes between d z
  through : z.threads[j]? = some (.stopAll .done)

/-! ## What is stopped -/

section

variable {between : Event → Prop} {a b c z : Host}

theorem Passes.mono {more : Event → Prop} (hp : Passes between h k) (hm : ∀ ev, between ev → more ev) :
    Passes more h k :=
  Relation.ReflTransGen.mono (fun _ _ ⟨ev, hb, hs⟩ => ⟨ev, hm ev hb, hs⟩) _ _ hp

/-- All that happens, where the moves of the request count as well. -/
theorem Shutdown.passes (hs : Shutdown between j h a c z) (more : Event → Prop) (hm : ∀ ev, between ev → more ev)
    (hj : more (.move j)) : Passes more h a ∧ Passes more a c ∧ ∃ b, a.step j = some b ∧ Passes more b z := by
  obtain ⟨b, hb, hbc⟩ := hs.meanwhile
  obtain ⟨d, hd, hdz⟩ := hs.after
  have step {h k : Host} (hs : h.step j = some k) : Passes more h k := .single ⟨.move j, hj, hs⟩
  have hcz := (step hd).trans (hdz.mono hm)
  exact ⟨hs.before.mono hm, (step hb).trans (hbc.mono hm), b, hb, (hbc.mono hm).trans hcz⟩

/-- The executions that are registered are on the first list. -/
theorem listed_of_step (hj : a.threads[j]? = some (.stopAll .start)) (hs : a.step j = some b) :
    b = { a with threads := a.threads.set j (.stopAll (.listed (a.registry.entries.map Prod.snd))) } ∧
      b.threads[j]? = some (.stopAll (.listed (a.registry.entries.map Prod.snd))) := by
  obtain ⟨k, s', hstep, rfl, hj'⟩ := stopAll_turn hj hs
  cases hstep
  exact ⟨rfl, hj'⟩

/-- What is registered as the executions are listed is stopped in the end. -/
theorem Shutdown.stops_registered (hs : Shutdown between j h a c z) (hl : a.Ledger) {n : String} {id : ExecutionId}
    {e : Execution} (hn : a.registered? n = some id) (he : a.execution? id = some e) : z.isStopped e.token = true := by
  obtain ⟨-, -, b, hb, hbz⟩ := hs.passes (fun _ => True) (fun _ _ => trivial) trivial
  obtain ⟨rfl, hj⟩ := listed_of_step hs.lists hb
  have hdoom : a.Doomed (.listed (a.registry.entries.map Prod.snd)) e.token :=
    .inr ⟨id, List.mem_map_of_mem (f := Prod.snd) (Assoc.mem_of_find? hn), e, he, rfl⟩
  have hlt : e.token < a.tokens.length := hl.tokened.there id e he
  exact stopped_of_doomed (h := { a with threads := _ }) hj hlt hdoom hbz hs.through

/-- The token of a build that is going on as these tokens are listed is stopped in the end. -/
theorem Shutdown.stops_build (hs : Shutdown between j h a c z) (hl : c.Ledger) {i : ThreadId} {g : Fulfilment}
    {t : TokenId} (hi : c.threads[i]? = some (.fulfilment g)) (ht : g.phase.buildToken? = some t) :
    z.isStopped t = true := by
  obtain ⟨ids, hj⟩ := hs.gathers
  obtain ⟨d, hd, hdz⟩ := hs.after
  obtain ⟨k, s', hstep, rfl, hj'⟩ := stopAll_turn hj hd
  have hmem : t ∈ c.registry.compiling.map Prod.snd :=
    List.mem_map_of_mem (f := Prod.snd) (Assoc.mem_of_find? (hl.entered i g t hi ht))
  have hlt := (hl.builds t hmem).1
  have hdoom : k.Doomed s' t := doomed_step hstep hlt (.inr ⟨⟨ids, rfl⟩, hmem⟩)
  have hlt' : t < k.tokens.length := by
    rw [(StopAll.quiet_step hstep).tokens]
    exact hlt
  exact stopped_of_doomed (h := { k with threads := _ }) hj' hlt' hdoom hdz hs.through

end

end

end Host

end Scripting
