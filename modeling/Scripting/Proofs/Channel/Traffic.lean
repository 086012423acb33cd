/-
The traffic on a bus. Any number of threads name channels, post, poll and wait for messages while stop
requests go round and time passes, move by move and in any order. Whatever the order, what was removed
from a channel and what is in it now are together what was posted to it; only a post that finds a
channel full pushes a message out, the oldest, and tells of it.

A run keeps the history of posts and removals beside the host. Each act does one thing to one channel
(`Effect`), and the balance of every channel follows from that.
-/
import Scripting.Proofs.Acts
import Scripting.Proofs.Channel.Laws
import Scripting.Proofs.Host.Events
import Mathlib.Logic.Relation

namespace Scripting

/-- How a message was removed from its channel. -/
inductive Removal.Way where
  /-- A post pushed it out. -/
  | evicted
  | polled
  /-- The poll of this number waited for it. -/
  | awaited (i : Nat)
  deriving DecidableEq

structure Removal where
  channel : String
  message : Message
  way : Removal.Way
  deriving DecidableEq

/-- A host with those who use its bus, and what was posted and removed so far, in order. -/
structure Traffic where
  host : Host
  /-- The polls that wait, each with the token whose stop gives it up. -/
  waits : List (Option TokenId × Poll) := []
  stops : List StopRequest := []
  posted : List (String × Message) := []
  removed : List Removal := []

namespace Traffic

inductive Act where
  /-- Somebody names a channel. -/
  | reach (n : String)
  | post (n : String) (m : Message)
  | poll (n : String)
  /-- Somebody begins to wait for a message. -/
  | await (n : String) (deadline : Option Nat) (token : Option TokenId)
  /-- A poll that waits makes a move. -/
  | goOn (i : Nat)
  | stop (t : TokenId)
  /-- A stop request makes a move. -/
  | goOnStopping (j : Nat)
  | elapse (millis : Nat)

/-- What a poll has taken by a move. -/
def takes (i : Nat) (p p' : Poll) : List Removal :=
  match p.taken?, p'.taken? with
  | none, some m => [⟨p.channel, m, .awaited i⟩]
  | _, _ => []

/-- The traffic after an act; none where whoever acts has to wait. -/
def step (w : Traffic) : Act → Option Traffic
  | .reach n => some { w with host := { w.host with bus := w.host.bus.ensure n } }
  | .post n m =>
    if w.host.isFree n then
      let (events, bus) := w.host.bus.post n m
      let (evicted, _) := (w.host.bus.channel n).post w.host.bus.capacity m
      some { w with
        host := { w.host with bus }.logged events
        posted := w.posted ++ [(n, m)]
        removed := w.removed ++ evicted.map fun x => ⟨n, x, .evicted⟩ }
    else none
  | .poll n =>
    if w.host.isFree n then
      let (m, bus) := w.host.bus.poll n
      some { w with
        host := { w.host with bus }
        removed := w.removed ++ m.toList.map fun x => ⟨n, x, .polled⟩ }
    else none
  | .await n deadline token =>
    some { w with
      host := { w.host with bus := w.host.bus.ensure n }
      waits := w.waits ++ [(token, { self := w.waits.length, channel := n, deadline })] }
  | .goOn i =>
    w.waits[i]? >>= fun (token, p) => (w.host.stepPoll token p).map fun (host, p') =>
      { w with host, waits := w.waits.set i (token, p'), removed := w.removed ++ takes i p p' }
  | .stop t => some { w with stops := w.stops ++ [{ token := t }] }
  | .goOnStopping j =>
    w.stops[j]? >>= fun r => (r.step w.host).map fun (host, r') =>
      { w with host, stops := w.stops.set j r' }
  | .elapse millis => some { w with host := { w.host with clock := w.host.clock + millis } }

/-- Acts lead from one state of the traffic to another. -/
def Leads : Traffic → Traffic → Prop := Relation.ReflTransGen fun w w' => ∃ a, w.step a = some w'

/-- No channel has been named, and nobody has used the bus. -/
structure Fresh (w : Traffic) : Prop where
  channels : w.host.bus.channels = []
  waits : w.waits = []
  posted : w.posted = []
  removed : w.removed = []

def queue (w : Traffic) (n : String) : List Message := (w.host.bus.channel n).messages

/-- What was posted to a channel, in order. -/
def postedTo (w : Traffic) (n : String) : List Message := (w.posted.filter (·.1 == n)).map (·.2)

/-- What was removed from a channel, in order. -/
def removedFrom (w : Traffic) (n : String) : List Message :=
  (w.removed.filter (·.channel == n)).map (·.message)

/-- What a poll that waits was given. -/
def givenTo (w : Traffic) (i : Nat) : List Message :=
  (w.removed.filter (·.way == .awaited i)).map (·.message)

def evictions (w : Traffic) : List Removal := w.removed.filter (·.way == .evicted)

/-- The channel that an act touches. -/
def touches (w : Traffic) : Act → Option String
  | .reach n | .post n _ | .poll n | .await n .. => some n
  | .goOn i => (w.waits[i]?).map (·.2.channel)
  | .goOnStopping j =>
    match w.stops[j]? with
    | some { phase := .waking (c :: _), .. } => some c
    | _ => none
  | .stop _ | .elapse _ => none

/-! ## Routines act so

What a routine asks of the bus is one of these acts, and a routine that waits moves as its poll does. -/

theorem serve_channel (w : Traffic) (seat : Seat) (n : String) :
    w.host.serve seat (.channel n) = (w.step (.reach n)).map fun w' => ((), w'.host) := rfl

theorem serve_post (w : Traffic) (seat : Seat) (n event : String) (params : Option String) :
    w.host.serve seat (.post n event params) =
      (w.step (.post n ⟨⟨w.host.clock⟩, event, params⟩)).map fun w' => ((), w'.host) := by
  simp only [Host.serve, step]
  split <;> rfl

theorem serve_poll (w : Traffic) (seat : Seat) (n : String) :
    w.host.serve seat (.poll n) = (w.step (.poll n)).map fun w' => ((w.host.bus.poll n).1, w'.host) := by
  simp only [Host.serve, step]
  split <;> rfl

theorem activity_await {α : Type} (w : Traffic) (seat : Seat) (n : String) (wait : Option Nat)
    (resume : Option Message → Routine α) (token : Option TokenId) :
    ((Activity.going (.ask (.await n wait) resume)).step seat w.host).map Prod.fst =
      (w.step (.await n (wait >>= Timestamp.after? w.host.clock) token)).map (·.host) := rfl

theorem activity_polling {α : Type} {w : Traffic} {seat : Seat} {i : Nat} {p : Poll}
    (hp : w.waits[i]? = some (w.host.seatToken seat, p)) (hr : p.result? = none)
    (resume : Option Message → Routine α) :
    ((Activity.polling p resume).step seat w.host).map Prod.fst = (w.step (.goOn i)).map (·.host) := by
  simp only [Activity.step, step, hr, hp, Option.map_map, Option.bind_eq_bind, Option.bind_some]
  rfl

/-! ## One channel at a time -/

/-- A change of the bus is one of a single channel. -/
def Touched (b b' : Bus) : Option String → Prop
  | none => b' = b
  | some n => ∃ c, b' = b.setChannel n c

section Touched

variable {b b' : Bus} {touched : Option String} {n : String}

theorem Touched.others (ht : Touched b b' touched) (hn : touched ≠ some n) : b'.channel n = b.channel n := by
  cases touched with
  | none => rw [show b' = b from ht]
  | some n' =>
    obtain ⟨c, rfl⟩ := ht
    exact Bus.channel_setChannel_of_ne (fun h => hn (by rw [h])) b c

theorem Touched.names (ht : Touched b b' touched) (hn : n ∈ b.names) : n ∈ b'.names := by
  cases touched with
  | none => rw [show b' = b from ht]; exact hn
  | some n' =>
    obtain ⟨c, rfl⟩ := ht
    exact Bus.mem_names_setChannel.2 (.inr hn)

theorem Touched.sorted (ht : Touched b b' touched) (hs : b.Sorted) : b'.Sorted := by
  cases touched with
  | none => rw [show b' = b from ht]; exact hs
  | some n =>
    obtain ⟨c, rfl⟩ := ht
    exact Bus.sorted_setChannel hs n c

theorem Touched.capacity (ht : Touched b b' touched) : b'.capacity = b.capacity := by
  cases touched with
  | none => rw [show b' = b from ht]
  | some n => obtain ⟨c, rfl⟩ := ht; rfl

end Touched

/-- A stop request touches the bus only where it wakes the sleepers of a channel. -/
theorem stopStep_eq_some {h h' : Host} {r r' : StopRequest} (hs : r.step h = some (h', r')) :
    h'.log = h.log ∧
      ((h'.bus = h.bus ∧ ∀ c left, r.phase ≠ .waking (c :: left)) ∨
        ∃ c left, r.phase = .waking (c :: left) ∧ h'.bus = h.bus.setChannel c (h.bus.channel c).wakeAll) := by
  obtain ⟨hm, -⟩ := StopRequest.moves_of_step hs
  generalize r'.phase = phase at hm
  cases hm with
  | wake hp _ => exact ⟨rfl, .inr ⟨_, _, hp, rfl⟩⟩
  | needless hp _ | raise hp _ _ | list hp | finish hp =>
    exact ⟨rfl, .inl ⟨rfl, fun c left => by rw [hp]; exact nofun⟩⟩

/-! ## What an act does -/

/-- What an act does: messages go from the front of one channel and come to its end. -/
structure Effect (w w' : Traffic) (n : String) (gone : List Removal) (come : List Message) : Prop where
  posted : w'.posted = w.posted ++ come.map (n, ·)
  removed : w'.removed = w.removed ++ gone
  here : ∀ r ∈ gone, r.channel = n
  others : ∀ n', n' ≠ n → w'.queue n' = w.queue n'
  conserved : gone.map (·.message) ++ w'.queue n = w.queue n ++ come

section Step

variable {w w' : Traffic} {a : Act}

/-- An act that leaves every queue and the history alone. -/
theorem effect_of_eq (hp : w'.posted = w.posted) (hr : w'.removed = w.removed)
    (hq : ∀ n, w'.queue n = w.queue n) : ∃ n gone come, w.Effect w' n gone come :=
  ⟨"", [], [], by simp [hp], by simp [hr], nofun, fun n' _ => hq n', by simp [hq]⟩

/-- Messages that were removed in one way from one channel. -/
theorem messages_removals (l : List Message) (n : String) (way : Removal.Way) :
    (l.map fun x => (⟨n, x, way⟩ : Removal)).map (·.message) = l := by
  rw [List.map_map]
  exact List.map_id l

theorem goOn_eq_some {i : Nat} (hs : w.step (.goOn i) = some w') :
    ∃ token p s', w.waits[i]? = some (token, p) ∧
      Poll.Moves w.host.clock ⟨w.host.bus.channel p.channel, token >>= w.host.token?, p⟩ s' ∧
      w'.host.bus = w.host.bus.setChannel p.channel s'.queue ∧ w'.host.log = w.host.log ∧
      w'.waits = w.waits.set i (token, s'.poll) ∧ w'.posted = w.posted ∧
      w'.removed = w.removed ++ takes i p s'.poll := by
  simp only [step] at hs
  obtain ⟨⟨token, p⟩, hp, hs⟩ := Option.bind_eq_some_iff.1 hs
  obtain ⟨⟨h', p'⟩, hh, hs⟩ := Option.map_eq_some_iff.1 hs
  cases hs
  obtain ⟨s', hm, rfl, hb, -, hl, -⟩ := Host.stepPoll_cases hh
  exact ⟨token, p, s', hp, hm, hb, hl, rfl, rfl, rfl⟩

theorem goOnStopping_eq_some {j : Nat} (hs : w.step (.goOnStopping j) = some w') :
    ∃ r r' h', w.stops[j]? = some r ∧ r.step w.host = some (h', r') ∧
      w' = { w with host := h', stops := w.stops.set j r' } := by
  simp only [step] at hs
  obtain ⟨r, hr, hs⟩ := Option.bind_eq_some_iff.1 hs
  obtain ⟨⟨h', r'⟩, hh, hs⟩ := Option.map_eq_some_iff.1 hs
  exact ⟨r, r', h', hr, hh, hs.symm⟩

/-- By a move a poll takes nothing, though it may have before, or the oldest message. -/
theorem takes_of_moves {now : Nat} {sc s' : Poll.Scene} (i : Nat) (hm : Poll.Moves now sc s') :
    (s'.queue.messages = sc.queue.messages ∧ s'.poll.taken? = sc.poll.taken? ∧ takes i sc.poll s'.poll = []) ∨
    ∃ m, sc.queue.messages = m :: s'.queue.messages ∧ sc.poll.taken? = none ∧ s'.poll.taken? = some m ∧
      takes i sc.poll s'.poll = [⟨sc.poll.channel, m, .awaited i⟩] := by
  unfold takes
  rcases hm.takes with ⟨hq, ht⟩ | ⟨m, hq, ht, ht'⟩
  · refine .inl ⟨hq, ht, ?_⟩
    rw [ht]
    cases sc.poll.taken? <;> rfl
  · refine .inr ⟨m, hq, ht, ht', ?_⟩
    rw [ht, ht']

theorem step_touched (hs : w.step a = some w') : Touched w.host.bus w'.host.bus (w.touches a) := by
  cases a with
  | reach n => cases hs; exact ⟨_, rfl⟩
  | post n m =>
    simp only [step] at hs
    split at hs
    · cases hs; exact ⟨_, rfl⟩
    · cases hs
  | poll n =>
    simp only [step] at hs
    split at hs
    · cases hs; exact ⟨_, rfl⟩
    · cases hs
  | await n deadline token => cases hs; exact ⟨_, rfl⟩
  | goOn i =>
    obtain ⟨token, p, s', hp, -, hb, -⟩ := goOn_eq_some hs
    simp only [touches, hp, Option.map_some]
    exact ⟨_, hb⟩
  | stop t => cases hs; rfl
  | goOnStopping j =>
    obtain ⟨r, r', h', hr, hh, rfl⟩ := goOnStopping_eq_some hs
    simp only [touches, hr]
    rcases (stopStep_eq_some hh).2 with ⟨hb, hn⟩ | ⟨c, left, hp, hb⟩
    · split
      · rename_i c left heq
        cases heq
        exact absurd rfl (hn c left)
      · exact hb
    · obtain ⟨tok, phase⟩ := r
      cases hp
      exact ⟨_, hb⟩
  | elapse millis => cases hs; rfl

theorem effect_post {n : String} {m : Message} (hs : w.step (.post n m) = some w') :
    ∃ gone, w.Effect w' n gone [m] := by
  simp only [step] at hs
  split at hs
  · cases hs
    refine ⟨_, rfl, rfl, fun r hr => ?_, fun n' hn => ?_, ?_⟩
    · obtain ⟨x, -, rfl⟩ := List.mem_map.1 hr
      rfl
    · exact congrArg Channel.messages (Bus.channel_setChannel_of_ne hn _ _)
    · show _ ++ ((w.host.bus.setChannel n (Channel.post _ m _).2).channel n).messages = _
      rw [Bus.channel_setChannel_self, messages_removals]
      exact Channel.post_conserves _ m _
  · cases hs

theorem effect_poll {n : String} (hs : w.step (.poll n) = some w') : ∃ gone, w.Effect w' n gone [] := by
  simp only [step] at hs
  split at hs
  · cases hs
    refine ⟨_, by simp, rfl, fun r hr => ?_, fun n' hn => ?_, ?_⟩
    · obtain ⟨x, -, rfl⟩ := List.mem_map.1 hr
      rfl
    · exact congrArg Channel.messages (Bus.channel_setChannel_of_ne hn _ _)
    · show _ ++ ((w.host.bus.setChannel n (Channel.poll _).2).channel n).messages = _
      rw [Bus.channel_setChannel_self, messages_removals, List.append_nil]
      exact Channel.poll_conserves _
  · cases hs

theorem effect_goOn {i : Nat} (hs : w.step (.goOn i) = some w') : ∃ n gone, w.Effect w' n gone [] := by
  obtain ⟨token, p, s', -, hst, hb, -, -, hpost, hrem⟩ := goOn_eq_some hs
  have hothers : ∀ n', n' ≠ p.channel → w'.queue n' = w.queue n' := by
    intro n' hn
    unfold queue
    rw [hb, Bus.channel_setChannel_of_ne hn]
  have hhere : w'.queue p.channel = s'.queue.messages := by
    unfold queue
    rw [hb, Bus.channel_setChannel_self]
  rcases takes_of_moves i hst with ⟨hq, -, ht⟩ | ⟨m, hq, -, -, ht⟩
  · refine ⟨p.channel, [], by simp [hpost], by rw [hrem, ht], nofun, hothers, ?_⟩
    rw [List.map_nil, List.nil_append, List.append_nil, hhere]
    exact hq
  · refine ⟨p.channel, _, by simp [hpost], hrem, fun r hr => ?_, hothers, ?_⟩
    · rw [ht, List.mem_singleton] at hr
      rw [hr]
    · rw [ht, hhere, List.append_nil]
      exact hq.symm

theorem effect_of_step (hs : w.step a = some w') : ∃ n gone come, w.Effect w' n gone come := by
  cases a with
  | reach n =>
    cases hs
    exact effect_of_eq rfl rfl fun n' => congrArg Channel.messages (Bus.channel_ensure _ n n')
  | post n m =>
    obtain ⟨gone, e⟩ := effect_post hs
    exact ⟨n, gone, [m], e⟩
  | poll n =>
    obtain ⟨gone, e⟩ := effect_poll hs
    exact ⟨n, gone, [], e⟩
  | await n deadline token =>
    cases hs
    exact effect_of_eq rfl rfl fun n' => congrArg Channel.messages (Bus.channel_ensure _ n n')
  | goOn i =>
    obtain ⟨n, gone, e⟩ := effect_goOn hs
    exact ⟨n, gone, [], e⟩
  | goOnStopping j =>
    obtain ⟨r, r', h', hr, hh, rfl⟩ := goOnStopping_eq_some hs
    refine effect_of_eq rfl rfl fun n => ?_
    unfold queue
    rcases (stopStep_eq_some hh).2 with ⟨hb, -⟩ | ⟨c, left, -, hb⟩
    · simp only [hb]
    · simp only [hb, Bus.channel_setChannel]
      split
      · rename_i hn; rw [hn]; rfl
      · rfl
  | stop | elapse => cases hs; exact effect_of_eq rfl rfl fun _ => rfl

/-- A post stores what is left of the queue, and tells of every message that it pushes out. -/
theorem post_eq_some {n : String} {m : Message} (hs : w.step (.post n m) = some w') :
    w'.host.bus = w.host.bus.setChannel n ((w.host.bus.channel n).post w.host.bus.capacity m).2 ∧
    w'.host.log = w.host.log ++
      ((w.host.bus.channel n).post w.host.bus.capacity m).1.map (Bus.evictionEvent n) ∧
    w'.removed = w.removed ++
      ((w.host.bus.channel n).post w.host.bus.capacity m).1.map (fun x => ⟨n, x, .evicted⟩) ∧
    w'.waits = w.waits := by
  simp only [step] at hs
  split at hs
  · cases hs; exact ⟨rfl, rfl, rfl, rfl⟩
  · cases hs

/-- An act that is no post logs nothing, posts nothing and pushes nothing out. -/
theorem step_of_ne_post (hn : ∀ n m, a ≠ .post n m) (hs : w.step a = some w') :
    w'.host.log = w.host.log ∧ w'.posted = w.posted ∧
      ∃ gone, w'.removed = w.removed ++ gone ∧ ∀ r ∈ gone, r.way ≠ .evicted := by
  cases a with
  | post n m => exact absurd rfl (hn n m)
  | poll n =>
    simp only [step] at hs
    split at hs
    · cases hs
      refine ⟨rfl, rfl, _, rfl, fun r hr => ?_⟩
      obtain ⟨x, -, rfl⟩ := List.mem_map.1 hr
      exact nofun
    · cases hs
  | goOn i =>
    obtain ⟨token, p, s', -, -, -, hl, -, hp, hr⟩ := goOn_eq_some hs
    refine ⟨hl, hp, _, hr, fun r hr => ?_⟩
    unfold takes at hr
    split at hr
    · rw [List.mem_singleton] at hr
      rw [hr]
      exact nofun
    · cases hr
  | goOnStopping j =>
    obtain ⟨r, r', h', -, hh, rfl⟩ := goOnStopping_eq_some hs
    exact ⟨(stopStep_eq_some hh).1, rfl, [], (List.append_nil _).symm, nofun⟩
  | reach | await | stop | elapse => cases hs; exact ⟨rfl, rfl, [], (List.append_nil _).symm, nofun⟩

/-! ## The invariant -/

/-- No channel holds more than the bus has it hold. -/
def Bounded (w : Traffic) : Prop :=
  ∀ c, w.host.bus.capacity = some c → ∀ n, (w.queue n).length ≤ max c 1

theorem bounded_after (hb : w.Bounded) (hs : w.step a = some w') : w'.Bounded := by
  intro c hc n'
  rw [(step_touched hs).capacity] at hc
  by_cases hp : ∃ n m, a = .post n m
  · obtain ⟨n, m, rfl⟩ := hp
    unfold queue
    rw [(post_eq_some hs).1, Bus.channel_setChannel]
    split
    · rw [hc]; exact Channel.post_length m _
    · exact hb c hc n'
  · -- nothing came to any channel
    obtain ⟨n, gone, come, e⟩ := effect_of_step hs
    have hcome : come = [] := by
      have hpost := e.posted.symm.trans (step_of_ne_post (fun n m hn => hp ⟨n, m, hn⟩) hs).2.1
      simpa using hpost
    by_cases hn : n' = n
    · have hl := congrArg List.length e.conserved
      rw [hcome, List.append_nil, List.length_append] at hl
      have := hb c hc n
      rw [hn]
      omega
    · rw [e.others n' hn]
      exact hb c hc n'

/-- What was removed and what is there are together what was posted. -/
def Balanced (w : Traffic) : Prop := ∀ n, w.removedFrom n ++ w.queue n = w.postedTo n

theorem Effect.balanced {n : String} {gone : List Removal} {come : List Message} (e : w.Effect w' n gone come)
    (hb : w.Balanced) : w'.Balanced := by
  intro n'
  have hbn := hb n'
  unfold removedFrom postedTo at hbn ⊢
  rw [e.removed, e.posted, List.filter_append, List.filter_append, List.map_append, List.map_append]
  by_cases hn : n' = n
  · -- on the channel that is touched both histories grow by what the effect says
    subst hn
    have hg : gone.filter (·.channel == n') = gone :=
      List.filter_eq_self.2 fun r hr => by simp [e.here r hr]
    have hc : (come.map (n', ·)).filter (·.1 == n') = come.map (n', ·) :=
      List.filter_eq_self.2 fun x hx => by
        obtain ⟨m, -, rfl⟩ := List.mem_map.1 hx
        simp
    rw [hg, hc, List.append_assoc, e.conserved, ← List.append_assoc, List.map_map, hbn]
    exact congrArg _ (List.map_id come).symm
  · -- on any other nothing comes and nothing goes
    have hg : gone.filter (·.channel == n') = [] :=
      List.filter_eq_nil_iff.2 fun r hr => by simp [e.here r hr, Ne.symm hn]
    have hc : (come.map (n, ·)).filter (·.1 == n') = [] :=
      List.filter_eq_nil_iff.2 fun x hx => by
        obtain ⟨m, -, rfl⟩ := List.mem_map.1 hx
        simp [Ne.symm hn]
    rw [hg, hc, e.others n' hn, List.map_nil, List.map_nil, List.append_nil, List.append_nil]
    exact hbn

/-- The log tells of every message that was pushed out, and of nothing else. -/
def Told (log : List Log.Event) (w : Traffic) : Prop :=
  w.host.log = log ++ w.evictions.map fun r => Bus.evictionEvent r.channel r.message

theorem evictions_append {gone : List Removal} (hr : w'.removed = w.removed ++ gone)
    (hg : ∀ r ∈ gone, r.way ≠ .evicted) : w'.evictions = w.evictions := by
  have hf : gone.filter (·.way == .evicted) = [] :=
    List.filter_eq_nil_iff.2 fun r hr => by simpa using hg r hr
  unfold evictions
  rw [hr, List.filter_append, hf, List.append_nil]

theorem told_after {log : List Log.Event} (ht : w.Told log) (hs : w.step a = some w') : w'.Told log := by
  unfold Told evictions at ht ⊢
  by_cases hp : ∃ n m, a = .post n m
  · obtain ⟨n, m, rfl⟩ := hp
    obtain ⟨-, hl, hr, -⟩ := post_eq_some hs
    have hf (l : List Message) : (l.map fun x => (⟨n, x, .evicted⟩ : Removal)).filter (·.way == .evicted) =
        l.map fun x => (⟨n, x, .evicted⟩ : Removal) :=
      List.filter_eq_self.2 fun r hr => by
        obtain ⟨x, -, rfl⟩ := List.mem_map.1 hr
        rfl
    rw [hl, hr, ht, List.filter_append, hf, List.map_append, List.map_map, List.append_assoc]
    rfl
  · obtain ⟨hl, -, gone, hr, hg⟩ := step_of_ne_post (fun n m hn => hp ⟨n, m, hn⟩) hs
    have he := evictions_append hr hg
    unfold evictions at he
    rw [hl, ht, he]

/-- Every poll that waits was given what it has taken, and nothing else. -/
structure Given (w : Traffic) : Prop where
  given : ∀ (i : Nat) token p, w.waits[i]? = some (token, p) → w.givenTo i = p.taken?.toList
  waiting : ∀ r ∈ w.removed, ∀ i, r.way = .awaited i → i < w.waits.length

theorem givenTo_append {i : Nat} {gone : List Removal} (hr : w'.removed = w.removed ++ gone)
    (hg : ∀ r ∈ gone, r.way ≠ .awaited i) : w'.givenTo i = w.givenTo i := by
  have hf : gone.filter (·.way == .awaited i) = [] :=
    List.filter_eq_nil_iff.2 fun r hr => by simpa using hg r hr
  unfold givenTo
  rw [hr, List.filter_append, hf, List.append_nil]

/-- An act by which no poll takes anything and none makes a move. -/
theorem Given.kept (hw : w.Given) {gone : List Removal} (hr : w'.removed = w.removed ++ gone)
    (hg : ∀ r ∈ gone, ∀ i, r.way ≠ .awaited i) (hws : w'.waits = w.waits) : w'.Given := by
  refine ⟨fun i token p hp => ?_, fun r hrm i hi => ?_⟩
  · rw [givenTo_append hr fun r hrm => hg r hrm i]
    exact hw.given i token p (hws ▸ hp)
  · rw [hws]
    rw [hr] at hrm
    rcases List.mem_append.1 hrm with hrm | hrm
    · exact hw.waiting r hrm i hi
    · exact absurd hi (hg r hrm i)

theorem given_await (hw : w.Given) {n : String} {deadline : Option Nat} {token : Option TokenId}
    (hs : w.step (.await n deadline token) = some w') : w'.Given := by
  cases hs
  refine ⟨fun i t p hp => ?_, fun r hr i hi => ?_⟩
  · rcases Nat.lt_trichotomy i w.waits.length with hi | rfl | hi
    · simp only [List.getElem?_append_left hi] at hp
      exact hw.given i t p hp
    · -- nothing was given to a poll that had not come yet
      simp only [List.getElem?_append_right (Nat.le_refl _), Nat.sub_self, List.getElem?_cons_zero,
        Option.some.injEq, Prod.mk.injEq] at hp
      obtain ⟨-, rfl⟩ := hp
      have hf : w.removed.filter (·.way == .awaited w.waits.length) = [] :=
        List.filter_eq_nil_iff.2 fun r hr hway =>
          Nat.lt_irrefl _ (hw.waiting r hr _ (by simpa using hway))
      unfold givenTo
      simp only [hf]
      rfl
    · simp only [List.getElem?_eq_none (show (w.waits ++ [_]).length ≤ i by simp; omega)] at hp
      cases hp
  · have := hw.waiting r hr i hi
    simp only [List.length_append, List.length_singleton]
    omega

theorem given_goOn (hw : w.Given) {i : Nat} (hs : w.step (.goOn i) = some w') : w'.Given := by
  obtain ⟨token, p, s', hp, hst, -, -, hws, -, hr⟩ := goOn_eq_some hs
  have hi : i < w.waits.length := (List.getElem?_eq_some_iff.1 hp).1
  have hways : ∀ r ∈ takes i p s'.poll, r.way = .awaited i := by
    intro r hrm
    rcases takes_of_moves i hst with ⟨-, -, ht⟩ | ⟨m, -, -, -, ht⟩ <;> rw [ht] at hrm
    · cases hrm
    · rw [List.mem_singleton] at hrm
      rw [hrm]
  refine ⟨fun j token' p' hp' => ?_, fun r hrm j hj => ?_⟩
  · rw [hws] at hp'
    by_cases hji : j = i
    · -- a poll takes a message only where it had taken none
      subst hji
      rw [List.getElem?_set_self hi, Option.some.injEq, Prod.mk.injEq] at hp'
      obtain ⟨-, rfl⟩ := hp'
      have hbefore := hw.given j token p hp
      rcases takes_of_moves j hst with ⟨-, hsame, ht⟩ | ⟨m, -, hnone, hsome, ht⟩
      · rw [hsame, givenTo_append hr (by rw [ht]; intro _ h; cases h)]
        exact hbefore
      · unfold givenTo at hbefore ⊢
        rw [hr, ht, List.filter_append, List.map_append, hbefore, hsome]
        simp [hnone]
    · rw [List.getElem?_set_ne (Ne.symm hji)] at hp'
      rw [givenTo_append hr fun r hrm => by rw [hways r hrm]; simpa using Ne.symm hji]
      exact hw.given j token' p' hp'
  · rw [hws, List.length_set]
    rw [hr] at hrm
    rcases List.mem_append.1 hrm with hrm | hrm
    · exact hw.waiting r hrm j hj
    · rw [hways r hrm, Removal.Way.awaited.injEq] at hj
      exact hj ▸ hi

theorem given_after (hw : w.Given) (hs : w.step a = some w') : w'.Given := by
  cases a with
  | post n m =>
    obtain ⟨-, -, hr, hws⟩ := post_eq_some hs
    refine hw.kept hr (fun r hrm i => ?_) hws
    obtain ⟨x, -, rfl⟩ := List.mem_map.1 hrm
    intro h; cases h
  | poll n =>
    simp only [step] at hs
    split at hs
    · cases hs
      refine hw.kept rfl (fun r hrm i => ?_) rfl
      obtain ⟨x, -, rfl⟩ := List.mem_map.1 hrm
      intro h; cases h
    · cases hs
  | await n deadline token => exact given_await hw hs
  | goOn i => exact given_goOn hw hs
  | goOnStopping j =>
    obtain ⟨r, r', h', -, -, rfl⟩ := goOnStopping_eq_some hs
    exact hw.kept (List.append_nil _).symm (fun _ h => by cases h) rfl
  | reach | stop | elapse => cases hs; exact hw.kept (List.append_nil _).symm (fun _ h => by cases h) rfl

/-- An act pushes a message out exactly if it is a post that finds a channel full: then the oldest
message, and one event tells of it. -/
theorem step_evictions (hb : w.Bounded) (hs : w.step a = some w') :
    (∃ n m c old rest, a = .post n m ∧ w.host.bus.capacity = some c ∧ (w.queue n).length = max c 1 ∧
      w.queue n = old :: rest ∧ w'.removed = w.removed ++ [⟨n, old, .evicted⟩] ∧
      w'.host.log = w.host.log ++ [Bus.evictionEvent n old]) ∨
    ((∀ n m c, a = .post n m → w.host.bus.capacity = some c → (w.queue n).length < max c 1) ∧
      w'.host.log = w.host.log ∧ ∃ gone, w'.removed = w.removed ++ gone ∧ ∀ r ∈ gone, r.way ≠ .evicted) := by
  by_cases hp : ∃ n m, a = .post n m
  · obtain ⟨n, m, rfl⟩ := hp
    obtain ⟨-, hl, hr, -⟩ := post_eq_some hs
    cases hc : w.host.bus.capacity with
    | none =>
      rw [hc, Channel.post_unbounded, List.map_nil, List.append_nil] at hl hr
      exact .inr ⟨nofun, hl, [], by rw [hr, List.append_nil], nofun⟩
    | some c =>
      have hlen := hb c hc n
      rw [hc, Channel.post_evicts hlen, show (w.host.bus.channel n).messages = w.queue n from rfl] at hl hr
      by_cases hfull : (w.queue n).length = max c 1
      · rw [if_pos hfull] at hl hr
        cases hq : w.queue n with
        | nil => rw [hq, List.length_nil] at hfull; omega
        | cons old rest =>
          rw [hq] at hl hr
          exact .inl ⟨n, m, c, old, rest, rfl, rfl, hfull, hq, hr, hl⟩
      · rw [if_neg hfull, List.map_nil, List.append_nil] at hl hr
        refine .inr ⟨fun n' m' c' hn hc' => ?_, hl, [], by rw [hr, List.append_nil], nofun⟩
        cases hn
        cases hc'
        exact Nat.lt_of_le_of_ne hlen hfull
  · obtain ⟨hl, -, hg⟩ := step_of_ne_post (fun n m hn => hp ⟨n, m, hn⟩) hs
    exact .inr ⟨fun n m _ hn => absurd ⟨n, m, hn⟩ hp, hl, hg⟩

end Step

/-- What holds of the traffic at any time. -/
structure Lawful (log : List Log.Event) (w : Traffic) : Prop where
  sorted : w.host.bus.Sorted
  balanced : w.Balanced
  bounded : w.Bounded
  unbounded : w.host.bus.capacity = none → w.evictions = []
  told : w.Told log
  given : w.Given

theorem lawful_fresh {w : Traffic} (hf : w.Fresh) : w.Lawful w.host.log := by
  have hq (n : String) : w.queue n = [] := by
    unfold queue Bus.channel
    rw [hf.channels]
    rfl
  have he : w.evictions = [] := by
    unfold evictions
    rw [hf.removed]
    rfl
  refine ⟨?_, fun n => ?_, fun c _ n => ?_, fun _ => he, ?_, fun i token p hp => ?_, fun r hr => ?_⟩
  · unfold Bus.Sorted
    rw [hf.channels]
    exact Assoc.ascending_nil
  · unfold removedFrom postedTo
    rw [hf.posted, hf.removed, hq]
    rfl
  · rw [hq]
    exact Nat.zero_le _
  · unfold Told
    rw [he]
    exact (List.append_nil _).symm
  · rw [hf.waits] at hp
    cases hp
  · rw [hf.removed] at hr
    cases hr

theorem Lawful.after {log : List Log.Event} {w w' : Traffic} {a : Act} (hw : w.Lawful log)
    (hs : w.step a = some w') : w'.Lawful log := by
  obtain ⟨n, gone, come, e⟩ := effect_of_step hs
  refine ⟨(step_touched hs).sorted hw.sorted, e.balanced hw.balanced, bounded_after hw.bounded hs,
    fun hc => ?_, told_after hw.told hs, given_after hw.given hs⟩
  rw [(step_touched hs).capacity] at hc
  rcases step_evictions hw.bounded hs with ⟨_, _, _, _, _, -, hc', -⟩ | ⟨-, -, gone, hr, hg⟩
  · rw [hc] at hc'; cases hc'
  · rw [evictions_append hr hg]
    exact hw.unbounded hc

theorem lawful_of_leads {w0 w : Traffic} (hf : w0.Fresh) (hl : w0.Leads w) : w.Lawful w0.host.log := by
  induction hl with
  | refl => exact lawful_fresh hf
  | tail _ hs ih =>
    obtain ⟨a, hs⟩ := hs
    exact ih.after hs

/-- In whatever order a bus is used, what was removed from a channel and what is in it are together what
was posted to it, in order; no channel holds more than the bus has it hold, and one without a capacity
loses nothing; the log tells of every message that was pushed out, and a poll that waited has what was
removed for it. Every further act pushes out only what it must, touches one channel and leaves all
channels in being. -/
theorem traffic_conserved {w0 w : Traffic} (hf : w0.Fresh) (hl : w0.Leads w) :
    (∀ n, w.removedFrom n ++ w.queue n = w.postedTo n) ∧
    (w.host.bus.capacity = none → w.evictions = []) ∧
    (∀ c, w.host.bus.capacity = some c → ∀ n, (w.queue n).length ≤ max c 1) ∧
    w.host.log = w0.host.log ++ w.evictions.map (fun r => Bus.evictionEvent r.channel r.message) ∧
    (∀ (i : Nat) token p, w.waits[i]? = some (token, p) → w.givenTo i = p.taken?.toList) ∧
    w.host.bus.names.Nodup ∧
    ∀ a w', w.step a = some w' →
      ((∃ n m c old rest, a = .post n m ∧ w.host.bus.capacity = some c ∧ (w.queue n).length = max c 1 ∧
          w.queue n = old :: rest ∧ w'.removed = w.removed ++ [⟨n, old, .evicted⟩] ∧
          w'.host.log = w.host.log ++ [Bus.evictionEvent n old]) ∨
        ((∀ n m c, a = .post n m → w.host.bus.capacity = some c → (w.queue n).length < max c 1) ∧
          w'.host.log = w.host.log ∧
          ∃ gone, w'.removed = w.removed ++ gone ∧ ∀ r ∈ gone, r.way ≠ .evicted)) ∧
      (∀ n, w.touches a ≠ some n → w'.host.bus.channel n = w.host.bus.channel n) ∧
      (∀ n ∈ w.host.bus.names, n ∈ w'.host.bus.names) ∧
      ∀ n, a = .reach n → n ∈ w'.host.bus.names ∧ w'.host.bus.channel n = w.host.bus.channel n := by
  have hw := lawful_of_leads hf hl
  refine ⟨hw.balanced, hw.unbounded, hw.bounded, hw.told, hw.given.given, hw.sorted.nodup_names,
    fun a w' hs => ⟨step_evictions hw.bounded hs, fun n hn => (step_touched hs).others hn,
      fun n hn => (step_touched hs).names hn, fun n ha => ?_⟩⟩
  subst ha
  cases hs
  exact ⟨Bus.mem_names_setChannel.2 (.inl rfl), Bus.channel_ensure _ n n⟩

/-! ## A run -/

/-- A bus that has room for one message a channel, before anybody uses it. -/
def narrow : Traffic where
  host := { Host.plain with bus := { capacity := some 1 } }

/-- Two posts, of which the second pushes the first message out, and a poll that waits for the second. -/
def crowded : List Act :=
  [.post "a" ⟨⟨0⟩, "first", none⟩, .post "a" ⟨⟨0⟩, "second", none⟩, .await "a" none none] ++
    List.replicate 5 (.goOn 0)

theorem conserved_crowded : ∃ w, narrow.Leads w ∧
    w.removedFrom "a" = [⟨⟨0⟩, "first", none⟩, ⟨⟨0⟩, "second", none⟩] ∧
    w.removedFrom "a" ++ w.queue "a" = w.postedTo "a" := by
  have hp : (crowded.foldlM step narrow).any (fun w =>
      w.removedFrom "a" = [⟨⟨0⟩, "first", none⟩, ⟨⟨0⟩, "second", none⟩]) = true := by decide +kernel
  obtain ⟨w, hs, hr⟩ := (Option.any_eq_true _ _).1 hp
  have hl := leads_of_played hs
  exact ⟨w, hl, of_decide_eq_true hr, (traffic_conserved ⟨rfl, rfl, rfl, rfl⟩ hl).1 "a"⟩

end Traffic

end Scripting
