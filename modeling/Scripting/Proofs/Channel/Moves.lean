/-
What one move of a poller and one move of a stop request can do, said once. A poller holds the queue of
its channel from the move that takes it to the one that lets it go, its waker is registered from before
it wants the queue until after it has let it go, and it falls asleep only after a look at an empty queue
and a look at a flag that was down.
-/
import Scripting.Host.Step
import Scripting.Proofs.Channel.Laws

namespace Scripting

/-! ## Pollers -/

namespace Poll

/-- The poller holds the queue of its channel. -/
def Phase.holds : Phase → Prop
  | .looking | .empty | .tired | .lastLook | .leaving _ => True
  | _ => False

/-- The poller has registered its waker, if it has one, and not taken it away. -/
def Phase.guarded : Phase → Prop
  | .arriving | .done _ => False
  | _ => True

/-- The poller holds the queue and has found no message in it. -/
def Phase.foundNone : Phase → Prop
  | .empty | .tired | .leaving none => True
  | _ => False

theorem Phase.foundNone.holds {p : Phase} (h : p.foundNone) : p.holds := by
  cases p <;> trivial

/-- The poller waits no longer, as its time is up. -/
def Phase.isLate : Phase → Prop
  | .late | .lastLook => True
  | _ => False

/-- What the poller has come to, once it has. -/
def verdict? (p : Poll) : Option (Option Message) :=
  match p.phase with
  | .leaving m | .left m | .done m => some m
  | _ => none

theorem verdict?_of_result? {p : Poll} {r : Option Message} (h : p.result? = some r) : p.verdict? = some r := by
  unfold result? at h
  unfold verdict?
  split at h
  · rename_i hp
    rw [hp]
    exact h
  · cases h

/-- The moves of a poller. -/
inductive Moves (now : Nat) (s : Scene) : Scene → Prop
  | register {t : StopToken WokenChannel} : s.poll.phase = .arriving → s.token = some t →
      Moves now s { s with
        token := some (t.onStop s.poll.channel).1
        poll := { s.poll with waker := some t.nextWaker, phase := .wanting } }
  | arrive : s.poll.phase = .arriving → s.token = none →
      Moves now s { s with poll := { s.poll with phase := .wanting } }
  | enter : s.poll.phase = .wanting → s.queue.holder = none →
      Moves now s { s with
        queue := { s.queue with holder := some s.poll.self }
        poll := { s.poll with phase := .looking } }
  | take {m : Message} {rest : List Message} : s.poll.phase = .looking → s.queue.messages = m :: rest →
      Moves now s { s with
        queue := { s.queue with messages := rest }
        poll := { s.poll with phase := .leaving (some m) } }
  | miss : s.poll.phase = .looking → s.queue.messages = [] →
      Moves now s { s with poll := { s.poll with phase := .empty } }
  | giveUp : s.poll.phase = .empty → s.token.any (·.stopped) = true →
      Moves now s { s with poll := { s.poll with phase := .leaving none } }
  | tire : s.poll.phase = .empty → s.token.any (·.stopped) = false →
      Moves now s { s with poll := { s.poll with phase := .tired } }
  | park : s.poll.phase = .tired →
      Moves now s { s with
        queue := { s.queue with holder := none, sleepers := s.queue.sleepers ++ [s.poll.self] }
        poll := { s.poll with phase := .asleep } }
  | lapse : s.poll.phase = .asleep → s.poll.self ∈ s.queue.sleepers → s.poll.deadline.any (· ≤ now) = true →
      Moves now s { s with
        queue := { s.queue with sleepers := s.queue.sleepers.filter (· != s.poll.self) }
        poll := { s.poll with phase := .late } }
  | wake : s.poll.phase = .asleep → s.poll.self ∉ s.queue.sleepers → s.queue.holder = none →
      Moves now s { s with
        queue := { s.queue with holder := some s.poll.self }
        poll := { s.poll with phase := .looking } }
  | enterLate : s.poll.phase = .late → s.queue.holder = none →
      Moves now s { s with
        queue := { s.queue with holder := some s.poll.self }
        poll := { s.poll with phase := .lastLook } }
  | lookLast : s.poll.phase = .lastLook →
      Moves now s { s with
        queue := { s.queue with messages := s.queue.messages.drop 1 }
        poll := { s.poll with phase := .leaving s.queue.messages.head? } }
  | leave {m : Option Message} : s.poll.phase = .leaving m →
      Moves now s { s with
        queue := { s.queue with holder := none }
        poll := { s.poll with phase := .left m } }
  | unregister {m : Option Message} : s.poll.phase = .left m →
      Moves now s { s with
        token := s.token.map fun t => (s.poll.waker.map t.drop).getD t
        poll := { s.poll with phase := .done m } }

theorem takeQueue_cases {s s' : Scene} {next : Phase} (hs : takeQueue s next = some s') :
    s.queue.holder = none ∧ s' = { s with
      queue := { s.queue with holder := some s.poll.self }
      poll := { s.poll with phase := next } } := by
  unfold takeQueue at hs
  split at hs
  · rename_i hn
    cases hs
    exact ⟨Option.isNone_iff_eq_none.1 hn, rfl⟩
  · cases hs

theorem moves_of_step {now : Nat} {s s' : Scene} (hs : step now s = some s') : Moves now s s' := by
  unfold step at hs
  cases hp : s.poll.phase <;> simp only [hp] at hs
  case arriving =>
    split at hs <;> rename_i ht <;> cases hs
    · exact .register hp ht
    · exact .arrive hp ht
  case wanting =>
    obtain ⟨hn, rfl⟩ := takeQueue_cases hs
    exact .enter hp hn
  case looking =>
    cases hq : s.queue.messages with
    | nil =>
      simp only [Channel.poll, hq, List.head?_nil] at hs
      cases hs
      exact .miss hp hq
    | cons m rest =>
      simp only [Channel.poll, hq, List.head?_cons, List.drop_one, List.tail_cons] at hs
      cases hs
      exact .take hp hq
  case empty =>
    cases ht : s.token.any (·.stopped) <;> simp only [ht, if_true, if_false, Bool.false_eq_true] at hs <;> cases hs
    · exact .tire hp ht
    · exact .giveUp hp ht
  case tired =>
    cases hs
    exact .park hp
  case asleep =>
    split at hs
    · rename_i hm
      have hm : s.poll.self ∈ s.queue.sleepers := by simpa using hm
      split at hs <;> cases hs
      rename_i hd
      exact .lapse hp hm hd
    · rename_i hm
      have hm : s.poll.self ∉ s.queue.sleepers := by simpa using hm
      obtain ⟨hn, rfl⟩ := takeQueue_cases hs
      exact .wake hp hm hn
  case late =>
    obtain ⟨hn, rfl⟩ := takeQueue_cases hs
    exact .enterLate hp hn
  case lastLook =>
    cases hs
    exact .lookLast hp
  case leaving m =>
    cases hs
    exact .leave hp
  case left m =>
    cases hs
    exact .unregister hp
  case done m => cases hs

section

variable {now : Nat} {s s' : Scene}

theorem Moves.self_channel (hm : Moves now s s') :
    s'.poll.self = s.poll.self ∧ s'.poll.channel = s.poll.channel ∧ s'.poll.deadline = s.poll.deadline := by
  cases hm <;> exact ⟨rfl, rfl, rfl⟩

/-- A poller takes the queue only where nobody holds it, and lets go only of what it holds. -/
theorem Moves.holder (hm : Moves now s s') :
    (s'.queue.holder = s.queue.holder ∧ (s'.poll.phase.holds → s.poll.phase.holds)) ∨
    (s.queue.holder = none ∧ s'.queue.holder = some s.poll.self) ∨
    (s.poll.phase.holds ∧ s'.queue.holder = none ∧ ¬ s'.poll.phase.holds) := by
  cases hm with
  | enter _ hn | wake _ _ hn | enterLate _ hn => exact .inr (.inl ⟨hn, rfl⟩)
  | park hp | leave hp => exact .inr (.inr ⟨by rw [hp]; trivial, rfl, id⟩)
  | take hp _ | miss hp _ | giveUp hp _ | tire hp _ | lookLast hp => exact .inl ⟨rfl, fun _ => by rw [hp]; trivial⟩
  | register | arrive | lapse | unregister => exact .inl ⟨rfl, False.elim⟩

/-- A move takes nothing, or the oldest message, and then the poller had taken none before. -/
theorem Moves.takes (hm : Moves now s s') :
    (s'.queue.messages = s.queue.messages ∧ s'.poll.taken? = s.poll.taken?) ∨
    ∃ m, s.queue.messages = m :: s'.queue.messages ∧ s.poll.taken? = none ∧ s'.poll.taken? = some m := by
  unfold taken?
  cases hm with
  | take hp hq => exact .inr ⟨_, hq, by rw [hp], rfl⟩
  | lookLast hp =>
    cases hq : s.queue.messages with
    | nil => exact .inl ⟨rfl, by rw [hp]; rfl⟩
    | cons m rest => exact .inr ⟨m, rfl, by rw [hp], rfl⟩
  | register hp | arrive hp | enter hp | miss hp | giveUp hp | tire hp | park hp | lapse hp | wake hp | enterLate hp
  | leave hp | unregister hp => exact .inl ⟨rfl, by rw [hp]⟩

/-- Only a poller that holds the queue touches the messages. -/
theorem Moves.messages (hm : Moves now s s') : s'.queue.messages = s.queue.messages ∨ s.poll.phase.holds := by
  cases hm with
  | take hp _ | lookLast hp => exact .inr (by rw [hp]; trivial)
  | _ => exact .inl rfl

/-- A poller falls asleep behind the others, leaves them when its time is up, and is awake otherwise. -/
theorem Moves.sleepers (hm : Moves now s s') :
    (s'.queue.sleepers = s.queue.sleepers ∧ s'.poll.phase ≠ .asleep ∧
      (s.poll.phase = .asleep → s.poll.self ∉ s.queue.sleepers)) ∨
    (s.poll.phase = .tired ∧ s'.poll.phase = .asleep ∧ s'.queue.sleepers = s.queue.sleepers ++ [s.poll.self]) ∨
    (s.poll.phase = .asleep ∧ s'.poll.phase = .late ∧
      s'.queue.sleepers = s.queue.sleepers.filter (· != s.poll.self)) := by
  cases hm with
  | park hp => exact .inr (.inl ⟨hp, rfl, rfl⟩)
  | lapse hp _ _ => exact .inr (.inr ⟨hp, rfl, rfl⟩)
  | wake _ hn _ => exact .inl ⟨rfl, nofun, fun _ => hn⟩
  | register hp _ | arrive hp _ | enter hp _ | take hp _ | miss hp _ | giveUp hp _ | tire hp _ | enterLate hp _
  | lookLast hp | leave hp | unregister hp => exact .inl ⟨rfl, nofun, fun ha => by rw [hp] at ha; cases ha⟩

/-- A poller that somebody has woken looks for a message next. -/
theorem Moves.woken (hm : Moves now s s') (hp : s.poll.phase = .asleep) (hn : s.poll.self ∉ s.queue.sleepers) :
    s'.poll.phase = .looking := by
  cases hm with
  | wake => rfl
  | lapse _ hs _ => exact absurd hs hn
  | register h _ | arrive h _ | enter h _ | take h _ | miss h _ | giveUp h _ | tire h _ | park h | enterLate h _
  | lookLast h | leave h | unregister h => exact absurd (hp.symm.trans h) nofun

/-- A look at a queue takes a message, unless there is none. -/
theorem Moves.fewer (hm : Moves now s s') :
    s'.queue.messages.length ≤ s.queue.messages.length - if s.poll.phase = .looking then 1 else 0 := by
  cases hm with
  | take hp hq => rw [if_pos hp, hq]; exact Nat.le_of_eq rfl
  | miss _ hq => simp only [hq, List.length_nil]; exact Nat.zero_le _
  | lookLast hp =>
    rw [if_neg (by rw [hp]; exact nofun), Nat.sub_zero, List.length_drop]
    exact Nat.sub_le _ 1
  | register h _ | arrive h _ | enter h _ | giveUp h _ | tire h _ | park h | lapse h _ _ | wake h _ _ | enterLate h _
  | leave h | unregister h => rw [if_neg (by rw [h]; exact nofun)]; exact Nat.le_refl _

/-- A poller that has found no message holds an empty queue. -/
theorem Moves.foundNone (hm : Moves now s s') (hs : s.poll.phase.foundNone → s.queue.messages = [])
    (hn : s'.poll.phase.foundNone) : s'.queue.messages = [] := by
  cases hm with
  | miss _ hq => exact hq
  | giveUp hp _ | tire hp _ => exact hs (by rw [hp]; trivial)
  | lookLast hp =>
    cases hq : s.queue.messages with
    | nil => rfl
    | cons m rest =>
      simp only [hq, List.head?_cons] at hn
      exact hn.elim
  | register | arrive | enter | take | park | lapse | wake | enterLate | leave | unregister => exact hn.elim

/-- A poller waits no longer only after its deadline. -/
theorem Moves.isLate (hm : Moves now s s') (hl : s'.poll.phase.isLate) :
    s.poll.phase.isLate ∨ s.poll.deadline.any (· ≤ now) = true := by
  cases hm with
  | lapse _ _ hd => exact .inr hd
  | enterLate hp _ => exact .inl (by rw [hp]; trivial)
  | register | arrive | enter | take | miss | giveUp | tire | park | wake | lookLast | leave | unregister =>
    exact hl.elim

/-- What a poller comes to, while it holds the queue, is the oldest message. It comes to nothing only where
its flag is up or its time is. -/
theorem Moves.verdict? (hm : Moves now s s') (hs : s.poll.phase.foundNone → s.queue.messages = [])
    (hn : s.poll.verdict? = none) {r : Option Message} (hr : s'.poll.verdict? = some r) :
    s.poll.phase.holds ∧ r = s.queue.messages.head? ∧
      (r = none → s.token.any (·.stopped) = true ∨ s.poll.phase.isLate) := by
  cases hm with
  | take hp hq =>
    cases hr
    exact ⟨by rw [hp]; trivial, by rw [hq]; rfl, nofun⟩
  | giveUp hp ht =>
    cases hr
    exact ⟨by rw [hp]; trivial, by rw [hs (by rw [hp]; trivial)]; rfl, fun _ => .inl ht⟩
  | lookLast hp =>
    cases hr
    exact ⟨by rw [hp]; trivial, rfl, fun _ => .inr (by rw [hp]; trivial)⟩
  | leave hp | unregister hp =>
    unfold Poll.verdict? at hn
    rw [hp] at hn
    cases hn
  | register | arrive | enter | miss | tire | park | lapse | wake | enterLate => cases hr

/-- What a poller has come to stays. -/
theorem Moves.verdict?_kept (hm : Moves now s s') {r : Option Message} (hr : s.poll.verdict? = some r) :
    s'.poll.verdict? = some r := by
  unfold Poll.verdict? at hr ⊢
  cases hm with
  | leave hp | unregister hp => rw [hp] at hr; exact hr
  | register hp | arrive hp | enter hp | take hp | miss hp | giveUp hp | tire hp | park hp | lapse hp | wake hp
  | enterLate hp | lookLast hp => rw [hp] at hr; cases hr

/-- What a move of a poller does to its stop token: it registers the waker under a new number, takes it
away again, or leaves the token alone. -/
theorem Moves.token (hm : Moves now s s') :
    (s'.token = s.token ∧ s'.poll.waker = s.poll.waker ∧ (s'.poll.phase.guarded → s.poll.phase.guarded ∨ s.token = none)) ∨
    (∃ t, s.token = some t ∧ s'.token = some (t.onStop s.poll.channel).1 ∧ s'.poll.waker = some t.nextWaker) ∨
    (s.poll.phase.guarded ∧ ¬ s'.poll.phase.guarded ∧
      s'.token = s.token.map fun t => (s.poll.waker.map t.drop).getD t) := by
  cases hm with
  | register _ ht => exact .inr (.inl ⟨_, ht, rfl, rfl⟩)
  | arrive _ ht => exact .inl ⟨rfl, rfl, fun _ => .inr ht⟩
  | unregister hp => exact .inr (.inr ⟨by rw [hp]; trivial, id, rfl⟩)
  | enter hp _ | take hp _ | miss hp _ | giveUp hp _ | tire hp _ | park hp | lapse hp _ _ | wake hp _ _
  | enterLate hp _ | lookLast hp | leave hp => exact .inl ⟨rfl, rfl, fun _ => .inl (by rw [hp]; trivial)⟩

/-- A poller tires only where it was not asked to stop. -/
theorem Moves.tired (hm : Moves now s s') (ht : s'.poll.phase = .tired) : s.token.any (·.stopped) = false := by
  cases hm with
  | tire _ h => exact h
  | register | arrive | enter | take | miss | giveUp | park | lapse | wake | enterLate | lookLast | leave | unregister =>
    cases ht

/-- No poller raises or lowers the flag that it looks at. -/
theorem Moves.stopped (hm : Moves now s s') : s'.token.map (·.stopped) = s.token.map (·.stopped) := by
  rcases hm.token with ⟨ht, -⟩ | ⟨t, ht, ht', -⟩ | ⟨-, -, ht⟩
  · rw [ht]
  · rw [ht, ht']; rfl
  · rw [ht, Option.map_map]
    cases s.token with
    | none => rfl
    | some t => cases s.poll.waker <;> rfl

theorem Moves.token_isSome (hm : Moves now s s') : s'.token.isSome = s.token.isSome := by
  have h := congrArg Option.isSome hm.stopped
  rw [Option.isSome_map, Option.isSome_map] at h
  exact h

end

end Poll

/-- A move of a poller stores its channel as it leaves it, and its stop token where there is one. -/
theorem Host.stepPoll_cases {h h' : Host} {token : Option TokenId} {p p' : Poll} (hs : h.stepPoll token p = some (h', p')) :
    ∃ s', Poll.Moves h.clock ⟨h.bus.channel p.channel, token >>= h.token?, p⟩ s' ∧ p' = s'.poll ∧
      h'.bus = h.bus.setChannel p.channel s'.queue ∧ h'.clock = h.clock ∧
      h'.log = h.log ∧ ∀ u, h'.token? u = if token = some u then s'.token else h.token? u := by
  unfold Host.stepPoll at hs
  obtain ⟨s', hst, hs⟩ := Option.map_eq_some_iff.1 hs
  have hm := Poll.moves_of_step hst
  have hsome : s'.token.isSome = (token >>= h.token?).isSome := hm.token_isSome
  refine ⟨s', hm, ?_⟩
  split at hs
  · rename_i t stop hstop _
    cases hs
    refine ⟨rfl, rfl, rfl, rfl, fun u => ?_⟩
    rw [hstop, Option.bind_eq_bind, Option.bind_some, Option.isSome_some, eq_comm] at hsome
    have hlt : t < h.tokens.length := by simpa [Host.token?] using hsome
    by_cases hu : t = u
    · rw [if_pos (by rw [hu]), hstop, ← hu]
      exact List.getElem?_set_self hlt
    · rw [if_neg fun h => hu (Option.some.inj h)]
      exact List.getElem?_set_ne hu
  · rename_i hnone
    cases hs
    refine ⟨rfl, rfl, rfl, rfl, fun u => ?_⟩
    split
    · -- there is no such token, neither before nor after
      rename_i hu
      subst hu
      have hn : s'.token = none := Option.eq_none_iff_forall_not_mem.2 fun stop hstop => hnone u stop rfl hstop
      rw [hn, Option.bind_eq_bind, Option.bind_some, Option.isSome_none, eq_comm, Option.isSome_eq_false_iff,
        Option.isNone_iff_eq_none] at hsome
      rw [hn]
      exact hsome
    · rfl

/-! ## Stop requests -/

namespace StopRequest

/-- The request has raised the flag and is not through with the wakers. -/
def Phase.underway : Phase → Prop
  | .raised | .waking _ => True
  | _ => False

/-- The request will still wake the sleepers of a channel, if its waker is registered. -/
def Phase.reaches (c : WokenChannel) : Phase → Prop
  | .raised => True
  | .waking left => c ∈ left
  | _ => False

theorem Phase.reaches.underway {c : WokenChannel} {p : Phase} (h : p.reaches c) : p.underway := by
  cases p <;> trivial

/-- The moves of a stop request: the host that each leaves, and the phase that it leads to. -/
inductive Moves (h : Host) (r : StopRequest) : Host → Phase → Prop
  | needless : r.phase = .start → (∀ t, h.token? r.token = some t → t.stopped = true) → Moves h r h .done
  | raise {t : StopToken WokenChannel} : r.phase = .start → h.token? r.token = some t → t.stopped = false →
      Moves h r (h.setToken r.token { t with stopped := true, cancelled := true }) .raised
  | list : r.phase = .raised →
      Moves h r h (.waking (((h.token? r.token).map fun t => t.wakers.map Prod.snd).getD []))
  | finish : r.phase = .waking [] → Moves h r h .done
  | wake {c : WokenChannel} {left : List WokenChannel} : r.phase = .waking (c :: left) → h.isFree c = true →
      Moves h r { h with bus := h.bus.setChannel c (h.bus.channel c).wakeAll } (.waking left)

theorem moves_of_step {h k : Host} {r r' : StopRequest} (hs : r.step h = some (k, r')) :
    Moves h r k r'.phase ∧ r' = { r with phase := r'.phase } := by
  unfold step at hs
  split at hs
  · rename_i hp
    split at hs
    · rename_i ht
      cases hs
      exact ⟨.needless hp fun t h1 => (by rw [ht] at h1; cases h1), rfl⟩
    · rename_i t ht
      split at hs
      · rename_i hst
        cases hs
        refine ⟨.needless hp fun t' h1 => ?_, rfl⟩
        rw [ht] at h1
        cases h1
        exact hst
      · rename_i hst
        cases hs
        exact ⟨.raise hp ht (by simpa using hst), rfl⟩
  · rename_i hp
    cases hs
    exact ⟨.list hp, rfl⟩
  · rename_i hp
    cases hs
    exact ⟨.finish hp, rfl⟩
  · rename_i hp
    split at hs <;> cases hs
    rename_i hf
    exact ⟨.wake hp hf, rfl⟩
  · cases hs

section

variable {h k : Host} {r : StopRequest} {phase : StopRequest.Phase}

theorem token?_setToken {t : TokenId} {s s0 : StopToken WokenChannel} (ht : h.token? t = some s0) (u : TokenId) :
    (h.setToken t s).token? u = if u = t then some s else h.token? u := by
  unfold Host.token? Host.setToken
  split
  · rename_i hu
    rw [hu, List.getElem?_set_self (List.getElem?_eq_some_iff.1 ht).1]
  · rename_i hu
    rw [List.getElem?_set_ne (Ne.symm hu)]

/-- A request raises the flag of its token, if it is down, and no other. -/
theorem Moves.isStopped (hm : r.Moves h k phase) (u : TokenId) :
    k.isStopped u = h.isStopped u ∨
    (u = r.token ∧ h.isStopped u = false ∧ k.isStopped u = true ∧ r.phase = .start ∧ phase = .raised) := by
  cases hm with
  | needless | list | finish | wake => exact .inl rfl
  | raise hp ht hst =>
    unfold Host.isStopped
    rw [token?_setToken ht]
    split
    · rename_i hu
      subst hu
      exact .inr ⟨rfl, by rw [ht]; exact hst, rfl, hp, rfl⟩
    · exact .inl rfl

/-- While a request is on its way it was so before, or it has just raised a flag that was down. -/
theorem Moves.underway (hm : r.Moves h k phase) (hu : phase.underway) :
    (r.phase.underway ∧ ∀ u, k.isStopped u = h.isStopped u) ∨
    (h.isStopped r.token = false ∧ k.isStopped r.token = true) := by
  cases hm with
  | needless | finish => exact hu.elim
  | list hp => exact .inl ⟨by rw [hp]; trivial, fun _ => rfl⟩
  | wake hp _ => exact .inl ⟨by rw [hp]; trivial, fun _ => rfl⟩
  | raise hp ht hst =>
    refine .inr ⟨?_, ?_⟩ <;> unfold Host.isStopped
    · rw [ht]; exact hst
    · rw [token?_setToken ht, if_pos rfl]; rfl

theorem Moves.clock (hm : r.Moves h k phase) : k.clock = h.clock := by
  cases hm <;> rfl

/-- A stop request leaves the wakers where they are. -/
theorem Moves.wakers (hm : r.Moves h k phase) {u : TokenId} {s' : StopToken WokenChannel} (hs : k.token? u = some s') :
    ∃ s, h.token? u = some s ∧ s'.wakers = s.wakers ∧ s'.nextWaker = s.nextWaker := by
  cases hm with
  | needless | list | finish | wake => exact ⟨s', hs, rfl, rfl⟩
  | @raise t _ ht _ =>
    rw [token?_setToken ht] at hs
    split at hs
    · rename_i hu
      cases hs
      exact ⟨t, hu ▸ ht, rfl, rfl⟩
    · exact ⟨s', hs, rfl, rfl⟩

end

end StopRequest

end Scripting
