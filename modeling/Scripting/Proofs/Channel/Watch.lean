/-
The pollers of a bus, watched. Beside the traffic goes the list of the pollers that somebody has woken
and that have not looked for a message since; and a sleeper may wake for no reason at all. A queue is
held by one poller at most, the sleepers of a channel are pollers that sleep there, each once, and
whoever found a queue empty and still holds it holds an empty one (`Housed`).

An act is the turn of one poller (`Turn`), or it eases the channels: it leaves alone what a poller holds
and puts nobody to sleep (`Eased`).
-/
import Scripting.Proofs.Channel.Moves
import Scripting.Proofs.Channel.Traffic

namespace Scripting

/-- What others than its own pollers do to a channel. -/
structure Channel.Eased (c c' : Channel) : Prop where
  holder : c'.holder = c.holder
  sleepers : c'.sleepers.Sublist c.sleepers
  messages : c'.messages = c.messages ∨ c.holder = none

theorem Channel.Eased.refl (c : Channel) : c.Eased c := ⟨rfl, .refl _, .inl rfl⟩

namespace Traffic

/-- The pollers that sleep on a channel, the longest sleeper first. -/
def sleepers (w : Traffic) (n : String) : List PollerId := (w.host.bus.channel n).sleepers

/-- A poller sleeps on a channel and nobody has woken it. -/
def Parked (w : Traffic) (i : Nat) (n : String) : Prop :=
  ∃ token p, w.waits[i]? = some (token, p) ∧ p.channel = n ∧ p.phase = .asleep ∧ i ∈ w.sleepers n

/-! ## The turn of a poller -/

/-- A poller makes a move. -/
structure Turn (w w' : Traffic) (i : Nat) (token : Option TokenId) (p : Poll) (s' : Poll.Scene) : Prop where
  was : w.waits[i]? = some (token, p)
  moves : Poll.Moves w.host.clock ⟨w.host.bus.channel p.channel, token >>= w.host.token?, p⟩ s'
  waits : w'.waits = w.waits.set i (token, s'.poll)
  bus : w'.host.bus = w.host.bus.setChannel p.channel s'.queue
  tokens : ∀ u, w'.host.token? u = if token = some u then s'.token else w.host.token? u
  clock : w'.host.clock = w.host.clock
  stops : w'.stops = w.stops

theorem turn_of_step {w w' : Traffic} {i : Nat} (hs : w.step (.goOn i) = some w') :
    ∃ token p s', w.Turn w' i token p s' := by
  simp only [step] at hs
  obtain ⟨⟨token, p⟩, hp, hs⟩ := Option.bind_eq_some_iff.1 hs
  obtain ⟨⟨h', p'⟩, hh, hs⟩ := Option.map_eq_some_iff.1 hs
  cases hs
  obtain ⟨s', hm, rfl, hb, hc, -, ht⟩ := Host.stepPoll_cases hh
  exact ⟨token, p, s', hp, hm, rfl, hb, ht, hc, rfl⟩

section Turn

variable {w w' : Traffic} {i : Nat} {token : Option TokenId} {p : Poll} {s' : Poll.Scene}

theorem Turn.now (ht : w.Turn w' i token p s') : w'.waits[i]? = some (token, s'.poll) := by
  rw [ht.waits, List.getElem?_set_self (List.getElem?_eq_some_iff.1 ht.was).1]

theorem Turn.others (ht : w.Turn w' i token p s') {k : Nat} (hk : k ≠ i) : w'.waits[k]? = w.waits[k]? := by
  rw [ht.waits, List.getElem?_set_ne (Ne.symm hk)]

/-- A poller after the turn is the one whose turn it was, or another as it was. -/
theorem Turn.cases (ht : w.Turn w' i token p s') {k : Nat} {tok : Option TokenId} {q : Poll}
    (hq : w'.waits[k]? = some (tok, q)) :
    (k = i ∧ tok = token ∧ q = s'.poll) ∨ (k ≠ i ∧ w.waits[k]? = some (tok, q)) := by
  by_cases hk : k = i
  · subst hk
    rw [ht.now] at hq
    cases hq
    exact .inl ⟨rfl, rfl, rfl⟩
  · exact .inr ⟨hk, by rw [← ht.others hk]; exact hq⟩

theorem Turn.channel (ht : w.Turn w' i token p s') : w'.host.bus.channel p.channel = s'.queue := by
  rw [ht.bus, Bus.channel_setChannel_self]

theorem Turn.channel_of_ne (ht : w.Turn w' i token p s') {n : String} (hn : n ≠ p.channel) :
    w'.host.bus.channel n = w.host.bus.channel n := by
  rw [ht.bus, Bus.channel_setChannel_of_ne hn]

end Turn

/-! ## What eases the channels -/

structure Eased (w w' : Traffic) : Prop where
  channels : ∀ n, (w.host.bus.channel n).Eased (w'.host.bus.channel n)
  waits : w'.waits = w.waits ∨ ∃ token channel deadline,
    w'.waits = w.waits ++ [(token, { self := w.waits.length, channel, deadline })]

/-- A change of one channel. -/
theorem eased_setChannel {w w' : Traffic} {n : String} {c : Channel} (hb : w'.host.bus = w.host.bus.setChannel n c)
    (hw : w'.waits = w.waits) (hc : (w.host.bus.channel n).Eased c) : w.Eased w' := by
  refine ⟨fun n' => ?_, .inl hw⟩
  rw [hb, Bus.channel_setChannel]
  split
  · rename_i hn
    rw [hn]
    exact hc
  · exact .refl _

theorem isFree_iff {h : Host} {n : String} : h.isFree n = true ↔ (h.bus.channel n).holder = none :=
  Option.isNone_iff_eq_none

theorem eased_of_step {w w' : Traffic} {a : Act} (ha : ∀ i, a ≠ .goOn i) (hs : w.step a = some w') : w.Eased w' := by
  cases a with
  | goOn i => exact absurd rfl (ha i)
  | reach n =>
    cases hs
    exact eased_setChannel rfl rfl (.refl _)
  | post n m =>
    simp only [step] at hs
    split at hs
    · rename_i hf
      cases hs
      exact eased_setChannel rfl rfl ⟨rfl, List.drop_sublist 1 _, .inr (isFree_iff.1 hf)⟩
    · cases hs
  | poll n =>
    simp only [step] at hs
    split at hs
    · rename_i hf
      cases hs
      exact eased_setChannel rfl rfl ⟨rfl, .refl _, .inr (isFree_iff.1 hf)⟩
    · cases hs
  | await n deadline token =>
    cases hs
    refine ⟨fun n' => ?_, .inr ⟨token, n, deadline, rfl⟩⟩
    simp only [Bus.channel_ensure]
    exact .refl _
  | goOnStopping j =>
    obtain ⟨r, r', h', -, hr, rfl⟩ := goOnStopping_eq_some hs
    rcases (stopStep_eq_some hr).2 with ⟨hb, -⟩ | ⟨c, left, -, hb⟩
    · refine ⟨fun n => ?_, .inl rfl⟩
      simp only [hb]
      exact .refl _
    · exact eased_setChannel hb rfl ⟨rfl, List.nil_sublist _, .inl rfl⟩
  | stop | elapse =>
    cases hs
    exact ⟨fun n => .refl _, .inl rfl⟩

section Eased

variable {w w' : Traffic}

theorem Eased.kept (he : w.Eased w') {k : Nat} {x : Option TokenId × Poll} (hx : w.waits[k]? = some x) :
    w'.waits[k]? = some x := by
  rcases he.waits with hw | ⟨_, _, _, hw⟩
  · rw [hw]; exact hx
  · rw [hw, List.getElem?_append_left (List.getElem?_eq_some_iff.1 hx).1]; exact hx

/-- A poller was there before, or it has just come. -/
theorem Eased.cases (he : w.Eased w') {k : Nat} {token : Option TokenId} {q : Poll}
    (hq : w'.waits[k]? = some (token, q)) :
    w.waits[k]? = some (token, q) ∨ (k = w.waits.length ∧ q.self = k ∧ q.phase = .arriving) := by
  rcases he.waits with hw | ⟨_, _, _, hw⟩
  · exact .inl (by rw [← hw]; exact hq)
  · rw [hw] at hq
    rcases Nat.lt_or_ge k w.waits.length with hk | hk
    · exact .inl (by rw [← hq, List.getElem?_append_left hk])
    · have hlen := (List.getElem?_eq_some_iff.1 hq).1
      rw [List.length_append, List.length_singleton] at hlen
      obtain rfl : k = w.waits.length := by omega
      rw [List.getElem?_append_right (Nat.le_refl _), Nat.sub_self, List.getElem?_cons_zero] at hq
      cases hq
      exact .inr ⟨rfl, rfl, rfl⟩

end Eased

/-! ## Who is where -/

structure Housed (w : Traffic) : Prop where
  self : ∀ (i : Nat) token p, w.waits[i]? = some (token, p) → p.self = i
  holds : ∀ (i : Nat) token p, w.waits[i]? = some (token, p) → p.phase.holds →
    (w.host.bus.channel p.channel).holder = some i
  parked : ∀ n, ∀ i ∈ w.sleepers n, w.Parked i n
  distinct : ∀ n, (w.sleepers n).Nodup
  empty : ∀ (i : Nat) token p, w.waits[i]? = some (token, p) → p.phase.foundNone → w.queue p.channel = []

section Housed

variable {w w' : Traffic} {i : Nat} {token : Option TokenId} {p : Poll} {s' : Poll.Scene}

/-- Two pollers that hold the queue of one channel are one. -/
theorem Housed.one_holds (hw : w.Housed) {k : Nat} {tok : Option TokenId} {q : Poll}
    (hp : w.waits[i]? = some (token, p)) (hq : w.waits[k]? = some (tok, q)) (hc : q.channel = p.channel)
    (hh : p.phase.holds) (hk : q.phase.holds) : k = i := by
  have hi := hw.holds i token p hp hh
  have hk := hw.holds k tok q hq hk
  rw [hc, hi, Option.some.injEq] at hk
  exact hk.symm

theorem housed_fresh (hf : w.Fresh) : w.Housed := by
  have hs (n : String) : w.sleepers n = [] := by
    unfold sleepers Bus.channel
    rw [hf.channels]
    rfl
  have hn (i : Nat) (x : Option TokenId × Poll) : w.waits[i]? ≠ some x := by
    rw [hf.waits]
    exact nofun
  refine ⟨fun i _ _ hp => absurd hp (hn i _), fun i _ _ hp => absurd hp (hn i _), fun n i hi => ?_, fun n => ?_,
    fun i _ _ hp => absurd hp (hn i _)⟩
  · rw [hs] at hi; cases hi
  · rw [hs]; exact List.nodup_nil

theorem Housed.eased (hw : w.Housed) (he : w.Eased w') : w'.Housed := by
  refine ⟨fun i token p hp => ?_, fun i token p hp hh => ?_, fun n i hi => ?_, fun n => ?_, fun i token p hp hn => ?_⟩
  · rcases he.cases hp with hp | ⟨-, hself, -⟩
    · exact hw.self i token p hp
    · exact hself
  · rcases he.cases hp with hp | ⟨-, -, harr⟩
    · rw [(he.channels _).holder]
      exact hw.holds i token p hp hh
    · rw [harr] at hh; exact hh.elim
  · obtain ⟨token, p, hp, hc, ha, -⟩ := hw.parked n i ((he.channels n).sleepers.subset hi)
    exact ⟨token, p, he.kept hp, hc, ha, hi⟩
  · exact (he.channels n).sleepers.nodup (hw.distinct n)
  · rcases he.cases hp with hp | ⟨-, -, harr⟩
    · -- while a poller holds the queue nobody else changes the messages
      have hq := hw.empty i token p hp hn
      rcases (he.channels p.channel).messages with hm | hm
      · unfold queue at hq ⊢
        rw [hm, hq]
      · rw [hw.holds i token p hp hn.holds] at hm
        cases hm
    · rw [harr] at hn; exact hn.elim

/-- Where the turn of a poller leaves its sleepers. -/
theorem Turn.sleepers_cases (ht : w.Turn w' i token p s') (hw : w.Housed) :
    (w'.sleepers p.channel = w.sleepers p.channel ∧ s'.poll.phase ≠ .asleep ∧ i ∉ w.sleepers p.channel) ∨
    (p.phase = .tired ∧ s'.poll.phase = .asleep ∧ i ∉ w.sleepers p.channel ∧
      w'.sleepers p.channel = w.sleepers p.channel ++ [i]) ∨
    (p.phase = .asleep ∧ s'.poll.phase = .late ∧
      w'.sleepers p.channel = (w.sleepers p.channel).filter (· != i)) := by
  have hself := hw.self i token p ht.was
  -- a poller that is awake does not stand among the sleepers
  have hawake (hp : p.phase ≠ .asleep) : i ∉ w.sleepers p.channel := fun hi => by
    obtain ⟨_, q, hq, -, ha, -⟩ := hw.parked _ i hi
    rw [ht.was] at hq
    cases hq
    exact hp ha
  have hmem : w'.sleepers p.channel = s'.queue.sleepers := congrArg Channel.sleepers ht.channel
  rw [hmem]
  rcases ht.moves.sleepers with ⟨hs, ha, hn⟩ | ⟨hp, ha, hs⟩ | ⟨hp, hl, hs⟩
  · refine .inl ⟨hs, ha, ?_⟩
    by_cases hp : p.phase = .asleep
    · exact hself ▸ hn hp
    · exact hawake hp
  · exact .inr (.inl ⟨hp, ha, hawake (by rw [hp]; exact nofun), hself ▸ hs⟩)
  · exact .inr (.inr ⟨hp, hl, hself ▸ hs⟩)

/-- By the turn of a poller nobody else falls asleep. -/
theorem Turn.mem_sleepers (ht : w.Turn w' i token p s') (hw : w.Housed) {k : Nat} (hk : k ≠ i) {n : String} :
    k ∈ w'.sleepers n ↔ k ∈ w.sleepers n := by
  by_cases hn : n = p.channel
  · subst hn
    rcases ht.sleepers_cases hw with ⟨hs, -, -⟩ | ⟨-, -, -, hs⟩ | ⟨-, -, hs⟩ <;> rw [hs]
    · simp [hk]
    · simp [hk]
  · unfold sleepers
    rw [ht.channel_of_ne hn]

theorem Housed.turn (hw : w.Housed) (ht : w.Turn w' i token p s') : w'.Housed := by
  have hself := hw.self i token p ht.was
  obtain ⟨hs, hc, -⟩ := ht.moves.self_channel
  -- another poller finds its queue as it was, if it holds it
  have hothers {k : Nat} {tok : Option TokenId} {q : Poll} (hk : k ≠ i) (hq : w.waits[k]? = some (tok, q))
      (hh : q.phase.holds) : (w'.host.bus.channel q.channel).holder = some k ∧ w'.queue q.channel = w.queue q.channel := by
    have hold := hw.holds k tok q hq hh
    by_cases hn : q.channel = p.channel
    · have hnot : ¬ p.phase.holds := fun hp => hk (hw.one_holds ht.was hq hn hp hh)
      unfold queue
      rw [hn, ht.channel]
      rw [hn] at hold
      refine ⟨?_, ht.moves.messages.resolve_right hnot⟩
      rcases ht.moves.holder with ⟨h, -⟩ | ⟨h, -⟩ | ⟨h, -⟩
      · rw [h]; exact hold
      · rw [hold] at h; cases h
      · exact absurd h hnot
    · unfold queue
      rw [ht.channel_of_ne hn]
      exact ⟨hold, rfl⟩
  refine ⟨fun k tok q hq => ?_, fun k tok q hq hh => ?_, fun n k hk => ?_, fun n => ?_, fun k tok q hq hn => ?_⟩
  · rcases ht.cases hq with ⟨rfl, -, rfl⟩ | ⟨-, hq⟩
    · exact hs.trans hself
    · exact hw.self k tok q hq
  · rcases ht.cases hq with ⟨rfl, -, rfl⟩ | ⟨hk, hq⟩
    · rw [hc, ht.channel]
      rcases ht.moves.holder with ⟨h, hback⟩ | ⟨-, h⟩ | ⟨-, -, h⟩
      · rw [h]; exact hw.holds k token p ht.was (hback hh)
      · rw [h, hself]
      · exact absurd hh h
    · exact (hothers hk hq hh).1
  · by_cases hki : k = i
    · subst hki
      refine ⟨token, s'.poll, ht.now, ?_⟩
      by_cases hn : n = p.channel
      · subst hn
        refine ⟨hc, ?_, hk⟩
        rcases ht.sleepers_cases hw with ⟨h, -, hno⟩ | ⟨-, ha, -⟩ | ⟨-, -, h⟩
        · rw [h] at hk; exact absurd hk hno
        · exact ha
        · rw [h] at hk; simp at hk
      · unfold sleepers at hk
        rw [ht.channel_of_ne hn] at hk
        obtain ⟨_, q, hq, hqn, -⟩ := hw.parked n k hk
        rw [ht.was] at hq
        cases hq
        exact absurd hqn.symm hn
    · obtain ⟨tok, q, hq, hqn, ha, -⟩ := hw.parked n k ((ht.mem_sleepers hw hki).1 hk)
      exact ⟨tok, q, by rw [ht.others hki]; exact hq, hqn, ha, hk⟩
  · by_cases hn : n = p.channel
    · subst hn
      rcases ht.sleepers_cases hw with ⟨h, -⟩ | ⟨-, -, hno, h⟩ | ⟨-, -, h⟩ <;> rw [h]
      · exact hw.distinct _
      · exact List.nodup_append.2 ⟨hw.distinct _, List.pairwise_singleton _ i, fun a ha b hb => by
          rw [List.mem_singleton] at hb
          rintro rfl
          exact hno (hb ▸ ha)⟩
      · exact (hw.distinct _).filter _
    · unfold sleepers
      rw [ht.channel_of_ne hn]
      exact hw.distinct n
  · rcases ht.cases hq with ⟨rfl, -, rfl⟩ | ⟨hk, hq⟩
    · unfold queue
      rw [hc, ht.channel]
      exact ht.moves.foundNone (hw.empty k token p ht.was) hn
    · rw [(hothers hk hq hn.holds).2]
      exact hw.empty k tok q hq hn

end Housed

end Traffic

/-! ## The watch -/

/-- The traffic with the pollers that somebody has woken and that have not looked for a message since. -/
structure Watch where
  traffic : Traffic
  woken : List Nat := []

namespace Watch

inductive Happening where
  | act (a : Traffic.Act)
  /-- A sleeper wakes for no reason. -/
  | stir (i : Nat)

/-- Whom an act wakes. -/
def wakes (w : Traffic) : Traffic.Act → List PollerId
  | .post n _ => (w.sleepers n).take 1
  | .goOnStopping j =>
    match w.stops[j]? with
    | some { phase := .waking (c :: _), .. } => w.sleepers c
    | _ => []
  | _ => []

/-- Who has been woken and has still not looked after an act, of those who had not before. -/
def stillDue (w : Traffic) (a : Traffic.Act) (woken : List Nat) : List Nat :=
  match a with
  | .goOn i => if (w.waits[i]?).any (·.2.phase == .looking) then woken.filter (· != i) else woken
  | _ => woken

/-- A sleeper leaves the others. -/
def rouse (w : Traffic) (i : Nat) : Option Traffic :=
  w.waits[i]? >>= fun (_, p) =>
    if i ∈ w.sleepers p.channel then
      let c := w.host.bus.channel p.channel
      some { w with host := { w.host with
        bus := w.host.bus.setChannel p.channel { c with sleepers := c.sleepers.filter (· != i) } } }
    else none

/-- What a happening leads to; none where it cannot happen. -/
def step (v : Watch) : Happening → Option Watch
  | .act a => (v.traffic.step a).map fun traffic =>
    { traffic, woken := stillDue v.traffic a v.woken ++ wakes v.traffic a }
  | .stir i => (rouse v.traffic i).map fun traffic => { traffic, woken := v.woken ++ [i] }

/-- Happenings lead from one state to another. -/
def Leads : Watch → Watch → Prop := Relation.ReflTransGen fun v v' => ∃ e, v.step e = some v'

/-- Nobody has used the bus, and nobody has asked anything to stop. -/
structure Fresh (v : Watch) : Prop where
  traffic : v.traffic.Fresh
  stops : v.traffic.stops = []
  woken : v.woken = []

theorem rouse_eq_some {w w' : Traffic} {i : Nat} (hs : rouse w i = some w') :
    ∃ token p, w.waits[i]? = some (token, p) ∧ i ∈ w.sleepers p.channel ∧ w' = { w with host := { w.host with
      bus := w.host.bus.setChannel p.channel { w.host.bus.channel p.channel with
        sleepers := (w.sleepers p.channel).filter (· != i) } } } := by
  unfold rouse at hs
  obtain ⟨⟨token, p⟩, hp, hs⟩ := Option.bind_eq_some_iff.1 hs
  simp only at hs
  split at hs
  · rename_i hi
    cases hs
    exact ⟨token, p, hp, hi, rfl⟩
  · cases hs

theorem eased_of_rouse {w w' : Traffic} {i : Nat} (hs : rouse w i = some w') : w.Eased w' := by
  obtain ⟨token, p, -, -, rfl⟩ := rouse_eq_some hs
  exact Traffic.eased_setChannel rfl rfl ⟨rfl, List.filter_sublist, .inl rfl⟩

end Watch

end Scripting
