/-
One order and one request to stop everything beside each other, in any order of their moves; the build of
the order is going on as the request comes. The order fails, or it leads to an execution; and that
execution is stopped by the request exactly if it was registered before the executions were listed. What
is registered behind that list has a token that no list holds, so it goes on with its flag down, also
where the token of its own build was stopped (`Overlooked`).
-/
import Scripting.Proofs.Registry.Shutdown

namespace Scripting

/-! ## What a build comes to -/

namespace Fulfilment

/-- The execution that an order has come to. -/
def Phase.made? : Phase → Option ExecutionId
  | .release (.ok id) | .start id | .done (.ok id) => some id
  | _ => none

def Phase.hasFailed : Phase → Prop
  | .release (.error _) | .done (.error _) => True
  | _ => False

/-- Where an order stands that somebody began to build for: the build goes on, has failed, or has come to
an execution of which something holds. -/
def Phase.Came (p : Phase) (made : ExecutionId → Prop) : Prop :=
  p.isBuilding ∨ p.hasFailed ∨ ∃ id, p.made? = some id ∧ made id

theorem made?_found (f : Fulfilment) (id : ExecutionId) : (f.found id).made? = some id := by
  unfold found
  split <;> rfl

section

variable {h k : Host} {f : Fulfilment} {p : Phase} {P Q : ExecutionId → Prop}

/-- Who builds goes on building, fails or registers a new execution. -/
theorem Moves.building_after (hm : Moves h f k p) (hb : f.phase.isBuilding) :
    p.isBuilding ∨ p.hasFailed ∨
      ∃ unit, k = (h.registerExecution f.order unit).2 ∧ p = .release (.ok h.executions.length) := by
  cases hm with
  | register => exact .inr (.inr ⟨_, rfl, rfl⟩)
  | @retract result _ =>
    cases result with
    | ok unit => exact .inl trivial
    | error e => exact .inr (.inl trivial)
  | announce | unresolved | resolved | compiled | compiling => exact .inl trivial
  | found hp _ | missed hp _ | lock hp _ | foundAgain hp _ | missedAgain hp _ | release hp | start hp =>
    rw [hp] at hb
    exact hb.elim

theorem Moves.failed_after (hm : Moves h f k p) (hf : f.phase.hasFailed) : p.hasFailed := by
  cases hm with
  | @release result hp =>
    cases result with
    | ok id => rw [hp] at hf; exact hf.elim
    | error e => trivial
  | found hp _ | missed hp _ | lock hp _ | foundAgain hp _ | missedAgain hp _ | announce hp | unresolved hp _
  | resolved hp _ _ | compiled hp | compiling hp _ | retract hp | register hp | start hp =>
    rw [hp] at hf
    exact hf.elim

/-- Who has come to an execution keeps to it or fails, and leaves the tokens and the entries alone. -/
theorem Moves.made_after (hm : Moves h f k p) {id : ExecutionId} (hf : f.phase.made? = some id) :
    (p.made? = some id ∨ p.hasFailed) ∧ k.tokens = h.tokens ∧ k.registry.entries = h.registry.entries := by
  cases hm with
  | @release result hp =>
    rw [hp] at hf
    cases result with
    | error e => cases hf
    | ok id =>
      cases hf
      exact ⟨.inl (made?_found f id), rfl, rfl⟩
  | @start id hp =>
    rw [hp] at hf
    cases hf
    refine ⟨?_, Host.start_tokens h id, by rw [Host.start_registry]⟩
    cases hr : (h.start id).1 with
    | ok _ => exact .inl rfl
    | error e => exact .inr trivial
  | found hp _ | missed hp _ | lock hp _ | foundAgain hp _ | missedAgain hp _ | announce hp | unresolved hp _
  | resolved hp _ _ | compiled hp | compiling hp _ | retract hp | register hp =>
    rw [hp] at hf
    cases hf

theorem Moves.came_after (hm : Moves h f k p) (hc : f.phase.Came P)
    (hnew : ∀ unit, k = (h.registerExecution f.order unit).2 → Q h.executions.length)
    (hold : ∀ id, P id → k.tokens = h.tokens → k.registry.entries = h.registry.entries → Q id) : p.Came Q := by
  rcases hc with hb | hf | ⟨id, hid, hP⟩
  · rcases hm.building_after hb with hb | hf | ⟨unit, hk, rfl⟩
    · exact .inl hb
    · exact .inr (.inl hf)
    · exact .inr (.inr ⟨_, rfl, hnew unit hk⟩)
  · exact .inr (.inl (hm.failed_after hf))
  · obtain ⟨hp, ht, he⟩ := hm.made_after hid
    rcases hp with hp | hp
    · exact .inr (.inr ⟨id, hp, hold id hP ht he⟩)
    · exact .inr (.inl hp)

theorem Phase.Came.imp (hc : p.Came P) (h : ∀ id, P id → Q id) : p.Came Q :=
  hc.imp_right (Or.imp_right fun ⟨id, hid, hP⟩ => ⟨id, hid, h id hP⟩)

theorem Phase.isBuilding_of_isAnnounced (h : p.isAnnounced) : p.isBuilding := by
  cases p with
  | resolve | compile | retract => trivial
  | lookUp | wantBuild | lookAgain | announce | register | release | start | done => exact h.elim

end

end Fulfilment

namespace Host

/-! ## The order and the request alone -/

/-- One of two threads makes a move, time passes, or the surroundings change. -/
def Event.Of (i j : ThreadId) : Event → Prop
  | .move n => n = i ∨ n = j
  | .elapse _ | .surroundings _ => True
  | _ => False

/-- An order and a request to stop everything, each on a thread of its own. -/
structure Beside (h : Host) (i j : ThreadId) (f : Fulfilment) (s : StopAll) : Prop where
  order : h.threads[i]? = some (.fulfilment f)
  request : h.threads[j]? = some (.stopAll s)

section

variable {h h' k : Host} {i j : ThreadId} {f g : Fulfilment} {s s' : StopAll} {ev : Event} {u : TokenId}

theorem Beside.ne (hb : h.Beside i j f s) : i ≠ j := by
  rintro rfl
  have := hb.order.symm.trans hb.request
  cases this

/-- What happens is a move of the order, a move of the request, or nothing to either. -/
theorem Beside.after (hb : h.Beside i j f s) (hev : ev.Of i j) (hs : h.after? ev = some h') :
    (∃ k p, f.Moves h k p ∧ h' = { k with threads := k.threads.set i (.fulfilment { f with phase := p }) } ∧
      h'.Beside i j { f with phase := p } s) ∨
    (∃ k s', s.step h = some (k, s') ∧ h' = { k with threads := k.threads.set j (.stopAll s') } ∧
      h'.Beside i j f s') ∨
    (h'.registry = h.registry ∧ h'.executions = h.executions ∧ h'.tokens = h.tokens ∧ h'.Beside i j f s) := by
  cases ev with
  | move n =>
    rcases hev with rfl | rfl
    · -- the thread of the order
      have hj := after?_thread hs hb.request (by simpa using hb.ne)
      obtain ⟨k, p, hm, rfl, hi⟩ := order_turn hb.order hs
      exact .inl ⟨k, p, hm, rfl, hi, hj⟩
    · have hi := after?_thread hs hb.order (by simpa using hb.ne.symm)
      obtain ⟨k, s', hstep, rfl, hj⟩ := stopAll_turn hb.request hs
      exact .inr (.inl ⟨k, s', hstep, rfl, hi, hj⟩)
  | elapse | surroundings =>
    cases hs
    exact .inr (.inr ⟨rfl, rfl, rfl, hb.order, hb.request⟩)
  | order | stopAll | start | stop => exact hev.elim

/-! ## Before the executions are listed -/

/-- What the order has come to is registered. -/
structure Recorded (h : Host) (i j : ThreadId) (o : Order) (f : Fulfilment) (s : StopAll) : Prop where
  beside : h.Beside i j f s
  same : f.order = o
  came : f.phase.Came fun id => h.registered? o.threadName = some id

theorem Recorded.after {o : Order} (hr : h.Recorded i j o f s) (hev : ev.Of i j) (hs : h.after? ev = some h') :
    ∃ f' s', h'.Recorded i j o f' s' := by
  rcases hr.beside.after hev hs with ⟨k, p, hm, rfl, hb⟩ | ⟨k, s', hstep, rfl, hb⟩ | ⟨hreg, -, -, hb⟩
  · refine ⟨_, _, hb, hr.same, hm.came_after hr.came (fun unit hk => ?_) fun id hid _ he => ?_⟩
    · show k.registered? o.threadName = _
      rw [hk, registered?_registerExecution, hr.same, if_pos rfl]
    · show k.registered? o.threadName = _
      unfold registered?
      rw [he]
      exact hid
  · refine ⟨_, _, hb, hr.same, hr.came.imp fun id hid => ?_⟩
    show k.registered? o.threadName = _
    unfold registered?
    rw [(StopAll.quiet_step hstep).registry]
    exact hid
  · refine ⟨_, _, hb, hr.same, hr.came.imp fun id hid => ?_⟩
    unfold registered?
    rw [hreg]
    exact hid

theorem recorded_of_passes {o : Order} (hr : h.Recorded i j o f s) (hp : Passes (Event.Of i j) h k) :
    ∃ f' s', k.Recorded i j o f' s' := by
  induction hp with
  | refl => exact ⟨f, s, hr⟩
  | tail _ hs ih =>
    obtain ⟨f', s', hr⟩ := ih
    obtain ⟨ev, hev, hs⟩ := hs
    exact hr.after hev hs

/-! ## Behind the list -/

/-- Whatever a request to stop everything is still about is there. -/
def Aimed (h : Host) : StopAll → Prop
  | .start | .done => True
  | .listed ids => ∀ id ∈ ids, id < h.executions.length
  | .stopping r left => r.token < h.tokens.length ∧ ∀ t ∈ left, t < h.tokens.length

theorem aimed_behind {left : List TokenId} (hl : ∀ t ∈ left, t < h.tokens.length) : h.Aimed (.behind left) := by
  cases left with
  | nil => trivial
  | cons t left => exact ⟨hl t List.mem_cons_self, fun t' ht => hl t' (List.mem_cons_of_mem _ ht)⟩

theorem Aimed.mono (ha : h.Aimed s) (he : h.executions.length ≤ k.executions.length)
    (ht : h.tokens.length ≤ k.tokens.length) : k.Aimed s := by
  cases s with
  | start | done => trivial
  | listed ids => exact fun id hid => Nat.lt_of_lt_of_le (ha id hid) he
  | stopping r left =>
    exact ⟨Nat.lt_of_lt_of_le ha.1 ht, fun t hm => Nat.lt_of_lt_of_le (ha.2 t hm) ht⟩

theorem Aimed.step (ha : h.Aimed s) (hl : h.Ledger) (hs : s.step h = some (k, s')) : k.Aimed s' := by
  rcases StopAll.step_cases hs with ⟨rfl, rfl, rfl⟩ | ⟨ids, rfl, rfl, rfl⟩ | ⟨r, left, rfl, -, rfl, rfl⟩ |
    ⟨r, r', left, rfl, hr, rfl⟩
  · exact hl.listed
  · refine aimed_behind fun t ht => ?_
    rcases List.mem_append.1 ht with ht | ht
    · obtain ⟨id, -, hm⟩ := List.mem_filterMap.1 ht
      obtain ⟨e, he, rfl⟩ := Option.map_eq_some_iff.1 hm
      exact hl.tokened.there id e he
    · exact (hl.builds t ht).1
  · exact aimed_behind ha.2
  · have hq := (StopRequest.quiet_step hr).tokens
    exact ⟨by rw [(StopRequest.step_flags hr).1, hq]; exact ha.1, fun t ht => by rw [hq]; exact ha.2 t ht⟩

theorem Targets.lt (ht : h.Targets u s) (ha : h.Aimed s) (hl : h.Ledger) : u < h.tokens.length := by
  cases s with
  | start | done => exact ht.elim
  | listed ids =>
    obtain ⟨id, -, e, he, rfl⟩ := ht
    exact hl.tokened.there id e he
  | stopping r left => exact ht.elim (fun hu => hu.1 ▸ ha.1) (ha.2 u)

/-- A request comes to be about no token by what the others do. -/
theorem Targets.before (hs : h.after? ev = some h') (ha : h.Aimed s) (ht : h'.Targets u s) : h.Targets u s := by
  cases s with
  | start | done => exact ht
  | stopping r left => exact ht
  | listed ids =>
    obtain ⟨id, hid, e, he, rfl⟩ := ht
    obtain ⟨e0, h0⟩ : ∃ e0, h.execution? id = some e0 := ⟨_, List.getElem?_eq_getElem (ha id hid)⟩
    obtain ⟨e', he', htok⟩ := after?_token hs h0
    cases he.symm.trans he'
    exact ⟨id, hid, e0, h0, htok.symm⟩

/-- What is doomed was so before, where the tokens and the request are as before. -/
theorem Doomed.before (hs : h.after? ev = some h') (ha : h.Aimed s) (ht : h'.tokens = h.tokens)
    (hd : h'.Doomed s u) : h.Doomed s u := by
  refine hd.imp (fun hst => ?_) (Targets.before hs ha)
  unfold isStopped token? at hst ⊢
  rw [← ht]
  exact hst

/-- A token that is new is not doomed. -/
theorem not_doomed_new (hs : h.after? ev = some h') (ha : h.Aimed s) (hl : h.Ledger)
    (ht : h'.tokens = h.tokens ++ [({} : StopToken WokenChannel)]) : ¬ h'.Doomed s h.tokens.length := by
  rintro (hst | hta)
  · unfold isStopped token? at hst
    rw [ht] at hst
    simp at hst
  · exact Nat.lt_irrefl _ ((Targets.before hs ha hta).lt ha hl)

/-- An execution that no list holds and whose flag is down. -/
def Overlooked (h : Host) (s : StopAll) (id : ExecutionId) : Prop :=
  ∃ e, h.execution? id = some e ∧ ¬ h.Doomed s e.token

theorem Overlooked.after {id : ExecutionId} (ho : h.Overlooked s id) (hs : h.after? ev = some h') (ha : h.Aimed s)
    (ht : h'.tokens = h.tokens) : h'.Overlooked s id := by
  obtain ⟨e, he, hd⟩ := ho
  obtain ⟨e', he', htok⟩ := after?_token hs he
  exact ⟨e', he', fun hd' => hd (htok ▸ hd'.before hs ha ht)⟩

/-- The second list holds the tokens of builds, and no execution has such a one. -/
theorem Overlooked.step {id : ExecutionId} (ho : h.Overlooked s id) (hb : s ≠ .start) (hl : h.Ledger)
    (hs : s.step h = some (k, s')) : k.Overlooked s' id := by
  obtain ⟨e, he, hd⟩ := ho
  refine ⟨e, ?_, fun hd' => ?_⟩
  · unfold execution? at he ⊢
    rw [(StopAll.quiet_step hs).executions]
    exact he
  · rcases doomed_of_step hs hb hd' with hd' | ⟨-, hm⟩
    · exact hd hd'
    · exact (hl.builds _ hm).2 id e he rfl

/-- What the order has come to was registered at a moment before, or came about since and is overlooked. -/
structure Behind (a h : Host) (i j : ThreadId) (o : Order) (f : Fulfilment) (s : StopAll) : Prop where
  beside : h.Beside i j f s
  same : f.order = o
  begun : s ≠ .start
  aimed : h.Aimed s
  later : a.executions.length ≤ h.executions.length
  came : f.phase.Came fun id => a.registered? o.threadName = some id ∨ a.executions.length ≤ id ∧ h.Overlooked s id

section

variable {a : Host} {o : Order}

theorem Behind.after (ho : Behind a h i j o f s) (hl : h.Ledger) (hev : ev.Of i j) (hs : h.after? ev = some h') :
    ∃ f' s', Behind a h' i j o f' s' := by
  have hex : h.executions.length ≤ h'.executions.length := after?_executions hs
  have hlater := Nat.le_trans ho.later hex
  have haim := ho.aimed.mono hex (after?_tokens hs)
  rcases ho.beside.after hev hs with ⟨k, p, hm, rfl, hb⟩ | ⟨k, s', hstep, rfl, hb⟩ | ⟨-, -, ht, hb⟩
  · refine ⟨_, _, hb, ho.same, ho.begun, haim, hlater, hm.came_after ho.came (fun unit hk => ?_) fun id hid ht _ => ?_⟩
    · subst hk
      exact .inr ⟨ho.later, _, (execution?_registerExecution h f.order unit _).trans (if_pos rfl),
        not_doomed_new hs ho.aimed hl rfl⟩
    · exact hid.imp_right (And.imp_right fun hid => hid.after hs ho.aimed ht)
  · have haim' : k.Aimed s' := ho.aimed.step hl hstep
    have step {id : ExecutionId} (hid : h.Overlooked s id) : k.Overlooked s' id := hid.step ho.begun hl hstep
    exact ⟨_, _, hb, ho.same, StopAll.begun_of_step hstep, haim', hlater, ho.came.imp fun id hid =>
      hid.imp_right (And.imp_right step)⟩
  · exact ⟨_, _, hb, ho.same, ho.begun, haim, hlater, ho.came.imp fun id hid =>
      hid.imp_right (And.imp_right fun hid => hid.after hs ho.aimed ht)⟩

theorem behind_of_passes (ho : Behind a h i j o f s) (hl : h.Ledger) (hp : Passes (Event.Of i j) h k) :
    ∃ f' s', Behind a k i j o f' s' := by
  have hall : k.Ledger ∧ ∃ f' s', Behind a k i j o f' s' := by
    induction hp with
    | refl => exact ⟨hl, f, s, ho⟩
    | tail _ hs ih =>
      obtain ⟨hl, f', s', ho⟩ := ih
      obtain ⟨ev, hev, hs⟩ := hs
      exact ⟨hl.after hs, ho.after hl hev hs⟩
  exact hall.2

/-- The move that lists the executions. -/
theorem Recorded.behind {b : Host} (hr : a.Recorded i j o f .start) (hl : a.Ledger) (hs : a.step j = some b) :
    Behind a b i j o f (.listed (a.registry.entries.map Prod.snd)) := by
  have hev : a.after? (.move j) = some b := hs
  have hi := after?_thread hev hr.beside.order (by simpa using hr.beside.ne.symm)
  obtain ⟨rfl, hj⟩ := listed_of_step hr.beside.request hs
  exact ⟨⟨hi, hj⟩, hr.same, nofun, hl.listed, Nat.le_refl _, hr.came.imp fun id hid => .inl hid⟩

end

/-! ## The theorem -/

variable {h0 a c z : Host} {between : Event → Prop}

/-- Whatever is registered as a request to stop everything lists the executions is stopped when it is
through, and so is the token of a build that is still going on at the second list. Where nobody else moves,
an order for which somebody was building as the request came goes on building, has failed, or has come to
an execution, and that execution is stopped exactly if it was registered at the first list. -/
theorem stops_what_was_registered (hf : h0.Fresh) (hr : Passes (fun _ => True) h0 h)
    (hi : h.threads[i]? = some (.fulfilment f)) (hp : f.phase.isAnnounced) (hs : Shutdown between j h a c z) :
    (∀ n id, a.registered? n = some id → ∃ e, z.execution? id = some e ∧ z.isStopped e.token = true) ∧
    (∀ g t, c.threads[i]? = some (.fulfilment g) → g.phase.buildToken? = some t → z.isStopped t = true) ∧
    ((∀ ev, between ev → ev.Of i j) → ∃ g, z.threads[i]? = some (.fulfilment g) ∧ g.order = f.order ∧
      g.phase.Came fun id => ∃ e, z.execution? id = some e ∧
        (z.isStopped e.token = true ↔ a.registered? f.name = some id)) := by
  obtain ⟨hha, hac, b, hb, hbz⟩ := hs.passes (fun _ => True) (fun _ _ => trivial) trivial
  have hla : a.Ledger := ledger_of_passes (ledger_of_passes (ledger_fresh hf) hr) hha
  have hlc : c.Ledger := ledger_of_passes hla hac
  have hlb : b.Ledger := hla.after (show a.after? (.move j) = some b from hb)
  -- what is registered at the first list is still there in the end, and stopped
  have stopped {n : String} {id : ExecutionId} (hn : a.registered? n = some id) :
      ∃ e, z.execution? id = some e ∧ z.isStopped e.token = true := by
    obtain ⟨e, he⟩ := hla.registered hn
    obtain ⟨e', he', htok⟩ := execution?_of_passes (.head ⟨.move j, trivial, hb⟩ hbz) he
    exact ⟨e', he', htok ▸ hs.stops_registered hla hn he⟩
  refine ⟨fun n id hn => stopped hn, fun g t hg ht => hs.stops_build hlc hg ht, fun hof => ?_⟩
  obtain ⟨hha, -, b', hb', hbz⟩ := hs.passes (Event.Of i j) hof (.inr rfl)
  cases hb.symm.trans hb'
  have hrec : h.Recorded i j f.order f .start :=
    ⟨⟨hi, hs.begun⟩, rfl, .inl (Fulfilment.Phase.isBuilding_of_isAnnounced hp)⟩
  obtain ⟨fa, sa, hra⟩ := recorded_of_passes hrec hha
  cases hra.beside.request.symm.trans hs.lists
  obtain ⟨g, sz, hz⟩ := behind_of_passes (hra.behind hla hb) hlb hbz
  cases hz.beside.request.symm.trans hs.through
  refine ⟨g, hz.beside.order, hz.same, hz.came.imp fun id hid => ?_⟩
  rcases hid with hreg | ⟨hlater, e, he, hd⟩
  · obtain ⟨e, he, hst⟩ := stopped hreg
    exact ⟨e, he, iff_of_true hst hreg⟩
  · refine ⟨e, he, iff_of_false (fun hst => hd (.inl hst)) fun hreg => ?_⟩
    obtain ⟨e0, h0⟩ := hla.registered hreg
    exact Nat.not_lt.2 hlater (List.getElem?_eq_some_iff.1 h0).1

end

/-! ## One build, stopped in time and too late -/

/-- The host for which every source does nothing, after a list of events. -/
def onPlain (evs : List Event) : Host := (plain.played evs).getD plain

theorem played_append {evs evs' : List Event} (hs : (plain.played (evs ++ evs')).isSome = true) :
    plain.played evs = some (onPlain evs) ∧ (onPlain evs).played evs' = some (onPlain (evs ++ evs')) := by
  obtain ⟨k, hk⟩ := Option.isSome_iff_exists.1 hs
  have hall : onPlain (evs ++ evs') = k := by unfold onPlain; rw [hk]; rfl
  unfold played at hk
  rw [List.foldlM_append] at hk
  obtain ⟨h, h1, h2⟩ := Option.bind_eq_some_iff.1 hk
  have hfst : onPlain evs = h := by unfold onPlain played; rw [h1]; rfl
  rw [hall, hfst]
  exact ⟨h1, h2⟩

theorem passes_of_played {between : Event → Prop} {h k : Host} {evs : List Event} (hs : h.played evs = some k)
    (hb : ∀ ev ∈ evs, between ev) : Passes between h k := by
  induction evs generalizing h with
  | nil => cases hs; exact .refl
  | cons ev evs ih =>
    unfold played at hs
    rw [List.foldlM_cons] at hs
    obtain ⟨h1, h1s, hs⟩ := Option.bind_eq_some_iff.1 hs
    exact .head ⟨ev, hb ev List.mem_cons_self, h1s⟩ (ih hs fun e he => hb e (List.mem_cons_of_mem _ he))

/-- A caller has a name run, another wants everything stopped, and the first comes to compile. -/
def comesToCompile : List Event := [.order job true, .stopAll] ++ List.replicate 5 (.move 0)

/-- The build goes on for some moves before the executions are listed. -/
def early (n : Nat) : List Event := comesToCompile ++ List.replicate n (.move 0)

/-- Then the lists are made and all that they hold is stopped, before the build comes to its end. -/
def wholly (n : Nat) : List Event :=
  early n ++ [.move 1] ++ [.move 1] ++ (List.replicate 4 (.move 1) ++ List.replicate (6 - n) (.move 0))

theorem shutdown_wholly {n : Nat} (hs : (plain.played (wholly n)).isSome = true)
    (h1 : (onPlain comesToCompile).threads[1]? = some (.stopAll .start))
    (h2 : (onPlain (early n)).threads[1]? = some (.stopAll .start))
    (h3 : ∃ ids, (onPlain (early n ++ [.move 1])).threads[1]? = some (.stopAll (.listed ids)))
    (h4 : (onPlain (wholly n)).threads[1]? = some (.stopAll .done)) :
    Passes (fun _ => True) plain (onPlain comesToCompile) ∧
    Shutdown (Event.Of 0 1) 1 (onPlain comesToCompile) (onPlain (early n)) (onPlain (early n ++ [.move 1]))
      (onPlain (wholly n)) := by
  -- the run is taken apart from its end
  obtain ⟨hd, hdz⟩ := played_append hs
  obtain ⟨hc, hcd⟩ := played_append (Option.isSome_of_eq_some hd)
  obtain ⟨ha, hab⟩ := played_append (Option.isSome_of_eq_some hc)
  obtain ⟨hh, hha⟩ := played_append (Option.isSome_of_eq_some ha)
  have one {h k : Host} (hp : h.played [.move 1] = some k) : h.step 1 = some k := by
    obtain ⟨k', hk, hs⟩ := Option.bind_eq_some_iff.1 hp
    cases hs
    exact hk
  exact ⟨passes_of_played hh fun _ _ => trivial, h1, passes_of_played hha (by simp [Event.Of]), h2,
    ⟨_, one hab, .refl⟩, h3, ⟨_, one hcd, passes_of_played hdz (by simp [Event.Of])⟩, h4⟩

theorem shutdown_at_once : Passes (fun _ => True) plain (onPlain comesToCompile) ∧
    Shutdown (Event.Of 0 1) 1 (onPlain comesToCompile) (onPlain (early 0)) (onPlain (early 0 ++ [.move 1]))
      (onPlain (wholly 0)) :=
  shutdown_wholly (by decide +kernel) rfl rfl ⟨_, rfl⟩ rfl

/-- What is built while everything is stopped can run on, though its own build was stopped. -/
theorem built_unstopped : ¬ ∀ (h0 h a c z : Host) (i j : ThreadId) (f g : Fulfilment) (id : ExecutionId) (e : Execution),
    h0.Fresh → Passes (fun _ => True) h0 h → h.threads[i]? = some (.fulfilment f) → f.phase.isAnnounced →
    Shutdown (Event.Of i j) j h a c z → z.threads[i]? = some (.fulfilment g) → g.phase.made? = some id →
    z.execution? id = some e → e.state = .running → z.isStopped e.token = true := by
  intro hall
  obtain ⟨hp, hs⟩ := shutdown_at_once
  have hst := hall plain _ _ _ _ 0 1 _ _ 0 _ fresh_plain hp rfl trivial hs rfl rfl rfl rfl
  exact absurd hst (by decide +kernel)

theorem stopped_in_time :
    (∃ e, (onPlain (wholly 4)).execution? 0 = some e ∧ (onPlain (wholly 4)).isStopped e.token = true) ∧
    (onPlain (wholly 0)).isStopped 0 = true ∧
    ∃ e, (onPlain (wholly 0)).execution? 0 = some e ∧ (onPlain (wholly 0)).isStopped e.token = false := by
  obtain ⟨hp, hs⟩ := shutdown_wholly (n := 4) (by decide +kernel) rfl rfl ⟨_, rfl⟩ rfl
  obtain ⟨hp0, hs0⟩ := shutdown_at_once
  refine ⟨(stops_what_was_registered (i := 0) fresh_plain hp rfl trivial hs).1 "job" 0 rfl, ?_⟩
  obtain ⟨-, hbuild, hmade⟩ := stops_what_was_registered (i := 0) fresh_plain hp0 rfl trivial hs0
  refine ⟨hbuild _ 0 rfl rfl, ?_⟩
  obtain ⟨g, hg, -, hcame⟩ := hmade fun _ => id
  cases (show (onPlain (wholly 0)).threads[0]? = _ from rfl).symm.trans hg
  rcases hcame with hb | hfail | ⟨id, hid, e, he, hiff⟩
  · exact hb.elim
  · exact hfail.elim
  · cases hid
    refine ⟨e, he, Bool.eq_false_iff.2 fun hst => ?_⟩
    exact absurd (hiff.1 hst) (by decide +kernel)

end Host

end Scripting
