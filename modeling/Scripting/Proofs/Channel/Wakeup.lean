/-
No message is slept through. A post wakes one sleeper only, so what has to be kept is a count: while
pollers sleep on a channel, its queue holds no more messages than there are woken pollers of the channel
that have not looked since (`Alert.enough`). A woken poller that looks takes a message or finds none;
whoever falls asleep does so over an empty queue; a sleeper whose time is up goes without taking a
wake-up with it.
-/
import Scripting.Proofs.Channel.Watch
import Mathlib.Data.List.Count
import Mathlib.Data.List.Nodup

namespace Scripting.Watch

/-- Whether a poller waits on a channel. -/
def isOn (w : Traffic) (n : String) (i : Nat) : Bool := (w.waits[i]?).any (·.2.channel == n)

/-- A poller of a channel has been woken, and has not looked for a message since. -/
def Due (w : Traffic) (i : Nat) (n : String) : Prop :=
  ∃ token p, w.waits[i]? = some (token, p) ∧ p.channel = n ∧
    (p.phase = .asleep ∧ i ∉ w.sleepers n ∨ p.phase = .looking)

/-- How many pollers of a channel have been woken and have not looked since. -/
def due (v : Watch) (n : String) : Nat := v.woken.countP (isOn v.traffic n)

theorem isOn_iff {w : Traffic} {n : String} {i : Nat} :
    isOn w n i = true ↔ ∃ token p, w.waits[i]? = some (token, p) ∧ p.channel = n := by
  unfold isOn
  simp only [Option.any_eq_true, beq_iff_eq, Prod.exists]

/-! ## Waking sleepers -/

section

variable {w w' : Traffic} {n : String}

theorem isOn_of_mem (hw : w.Housed) {i : Nat} (hi : i ∈ w.sleepers n) : isOn w n i = true := by
  obtain ⟨token, p, hp, hc, -⟩ := hw.parked n i hi
  exact isOn_iff.2 ⟨token, p, hp, hc⟩

/-- Sleepers are woken, at least one for every message that comes to a channel on which others sleep on. -/
structure Rouses (w w' : Traffic) (l : List Nat) : Prop where
  eased : w.Eased w'
  slept : ∀ i ∈ l, ∃ n, i ∈ w.sleepers n ∧ i ∉ w'.sleepers n
  all : ∀ n, ∀ i ∈ w.sleepers n, i ∈ w'.sleepers n ∨ i ∈ l
  once : l.Nodup
  enough : ∀ n, w'.sleepers n ≠ [] → (w'.queue n).length ≤ (w.queue n).length + l.countP (isOn w n)

theorem rouses_setChannel (hw : w.Housed) (he : w.Eased w') {c : Channel} {l : List Nat}
    (hb : w'.host.bus = w.host.bus.setChannel n c) (hl : (w.sleepers n).Perm (l ++ c.sleepers))
    (hm : c.sleepers ≠ [] → c.messages.length ≤ (w.queue n).length + l.length) : Rouses w w' l := by
  have hnodup : (l ++ c.sleepers).Nodup := hl.nodup_iff.1 (hw.distinct n)
  have hself : w'.host.bus.channel n = c := by rw [hb, Bus.channel_setChannel_self]
  have hother {n' : String} (hn : n' ≠ n) : w'.host.bus.channel n' = w.host.bus.channel n' := by
    rw [hb, Bus.channel_setChannel_of_ne hn]
  refine ⟨he, fun i hi => ⟨n, ?_, ?_⟩, fun n' i hi => ?_, hnodup.of_append_left,
    fun n' hs => ?_⟩
  · exact hl.mem_iff.2 (List.mem_append_left _ hi)
  · unfold Traffic.sleepers
    rw [hself]
    exact List.disjoint_of_nodup_append hnodup hi
  · unfold Traffic.sleepers
    by_cases hn : n' = n
    · subst hn
      rw [hself]
      exact (List.mem_append.1 (hl.mem_iff.1 hi)).symm
    · rw [hother hn]
      exact .inl hi
  · by_cases hn : n' = n
    · subst hn
      -- whoever is woken waits on this channel
      have hall : l.countP (isOn w n') = l.length :=
        List.countP_eq_length.2 fun i hi => isOn_of_mem hw (hl.mem_iff.2 (List.mem_append_left _ hi))
      unfold Traffic.sleepers at hs
      rw [hself] at hs
      unfold Traffic.queue at hm ⊢
      rw [hself, hall]
      exact hm hs
    · unfold Traffic.queue
      rw [hother hn]
      exact Nat.le_add_right _ _

/-- Nobody is woken and no channel changes. -/
theorem rouses_none (hc : ∀ n, w'.host.bus.channel n = w.host.bus.channel n) (he : w.Eased w') : Rouses w w' [] := by
  refine ⟨he, fun i hi => absurd hi List.not_mem_nil, fun n i hi => .inl ?_, List.nodup_nil, fun n _ => ?_⟩
  · unfold Traffic.sleepers
    rw [hc]
    exact hi
  · unfold Traffic.queue
    rw [hc]
    exact Nat.le_add_right _ _

theorem rouses_of_step {a : Traffic.Act} (hw : w.Housed) (ha : ∀ i, a ≠ .goOn i) (hs : w.step a = some w') :
    Rouses w w' (wakes w a) := by
  have he := Traffic.eased_of_step ha hs
  cases a with
  | goOn i => exact absurd rfl (ha i)
  | post n m =>
    refine rouses_setChannel hw he (Traffic.post_eq_some hs).1 (.of_eq (List.take_append_drop 1 _).symm) fun hmore => ?_
    -- others sleep on, so one was woken, and at most one message more is there
    have hone : (wakes w (.post n m)).length = 1 := by
      have hlen : 0 < ((w.sleepers n).drop 1).length := List.length_pos_of_ne_nil hmore
      rw [List.length_drop] at hlen
      exact List.length_take_of_le (by omega)
    have hlen := congrArg List.length (Channel.post_conserves w.host.bus.capacity m (w.host.bus.channel n))
    rw [List.length_append, List.length_append, List.length_singleton] at hlen
    rw [hone, Traffic.queue]
    omega
  | poll n =>
    simp only [Traffic.step] at hs
    split at hs
    · cases hs
      refine rouses_setChannel hw he rfl (.refl _) fun _ => ?_
      simp only [List.length_drop, Traffic.queue]
      omega
    · cases hs
  | goOnStopping j =>
    obtain ⟨r, r', h', hr, hstep, rfl⟩ := Traffic.goOnStopping_eq_some hs
    simp only [wakes, hr]
    rcases (Traffic.stopStep_eq_some hstep).2 with ⟨hb, hn⟩ | ⟨c, left, hp, hb⟩
    · split
      · rename_i heq
        cases heq
        exact absurd rfl (hn _ _)
      · exact rouses_none (fun n => congrArg (Bus.channel · n) hb) he
    · obtain ⟨token, phase⟩ := r
      cases hp
      exact rouses_setChannel hw he hb (.of_eq (List.append_nil _).symm) fun h => absurd rfl h
  | reach n =>
    cases hs
    exact rouses_none (fun n' => Bus.channel_ensure _ n n') he
  | await n deadline token =>
    cases hs
    exact rouses_none (fun n' => Bus.channel_ensure _ n n') he
  | stop | elapse =>
    cases hs
    exact rouses_none (fun _ => rfl) he

theorem rouses_of_rouse {i : Nat} (hw : w.Housed) (hs : rouse w i = some w') : Rouses w w' [i] := by
  have he := eased_of_rouse hs
  obtain ⟨token, p, -, hi, rfl⟩ := rouse_eq_some hs
  refine rouses_setChannel hw he rfl ?_ fun _ => Nat.le_add_right _ _
  rw [← (hw.distinct p.channel).erase_eq_filter]
  exact List.perm_cons_erase hi

end

/-! ## The invariant -/

/-- Whoever has been woken is still to look, every sleeper is parked or has been woken, and while some are
parked there are as many woken ones as messages. -/
structure Alert (v : Watch) : Prop where
  housed : v.traffic.Housed
  due : ∀ i ∈ v.woken, ∃ n, Due v.traffic i n
  asleep : ∀ (i : Nat) token p, v.traffic.waits[i]? = some (token, p) → p.phase = .asleep →
    v.traffic.Parked i p.channel ∨ i ∈ v.woken
  once : v.woken.Nodup
  enough : ∀ n, v.traffic.sleepers n ≠ [] → (v.traffic.queue n).length ≤ v.due n

theorem alert_fresh {v : Watch} (hf : v.Fresh) : v.Alert := by
  have hw := Traffic.housed_fresh hf.traffic
  refine ⟨hw, fun i hi => ?_, fun i token p hp => ?_, by rw [hf.woken]; exact List.nodup_nil, fun n hn => ?_⟩
  · rw [hf.woken] at hi; cases hi
  · rw [hf.traffic.waits] at hp; cases hp
  · obtain ⟨i, hi⟩ := List.exists_mem_of_ne_nil _ hn
    obtain ⟨_, _, hp, -⟩ := hw.parked n i hi
    rw [hf.traffic.waits] at hp
    cases hp

section

variable {v v' : Watch}

theorem Due.not_mem_sleepers {w : Traffic} (hw : w.Housed) {i : Nat} {n : String} (hd : Due w i n) (n' : String) :
    i ∉ w.sleepers n' := by
  intro hi
  obtain ⟨token, p, hp, hn, hd⟩ := hd
  obtain ⟨_, q, hq, hn', ha, -⟩ := hw.parked n' i hi
  rw [hp] at hq
  cases hq
  rcases hd with ⟨-, hno⟩ | hl
  · exact hno (hn ▸ hn' ▸ hi)
  · rw [ha] at hl; cases hl

theorem Alert.roused (hv : v.Alert) {l : List Nat} (hr : Rouses v.traffic v'.traffic l)
    (hw : v'.woken = v.woken ++ l) : v'.Alert := by
  have he := hr.eased
  have hon {i : Nat} {n : String} (h : isOn v.traffic n i = true) : isOn v'.traffic n i = true := by
    obtain ⟨token, p, hp, hn⟩ := isOn_iff.1 h
    exact isOn_iff.2 ⟨token, p, he.kept hp, hn⟩
  refine ⟨hv.housed.eased he, fun i hi => ?_, fun i token p hp ha => ?_, ?_, fun n hn => ?_⟩
  · rw [hw] at hi
    rcases List.mem_append.1 hi with hi | hi
    · obtain ⟨n, token, p, hp, hn, hd⟩ := hv.due i hi
      refine ⟨n, token, p, he.kept hp, hn, hd.imp_left fun ⟨ha, hno⟩ => ⟨ha, fun h => hno ?_⟩⟩
      exact (he.channels n).sleepers.subset h
    · obtain ⟨n, hs, hno⟩ := hr.slept i hi
      obtain ⟨token, p, hp, hn, ha, -⟩ := hv.housed.parked n i hs
      exact ⟨n, token, p, he.kept hp, hn, .inl ⟨ha, hno⟩⟩
  · rw [hw]
    rcases he.cases hp with hp0 | ⟨-, -, harr⟩
    · rcases hv.asleep i token p hp0 ha with ⟨_, _, _, _, _, hs⟩ | hi
      · exact (hr.all _ i hs).imp (fun hs => ⟨token, p, hp, rfl, ha, hs⟩) (List.mem_append_right _)
      · exact .inr (List.mem_append_left _ hi)
    · rw [ha] at harr; cases harr
  · rw [hw]
    refine List.nodup_append.2 ⟨hv.once, hr.once, fun a ha b hb hab => ?_⟩
    obtain ⟨n, hd⟩ := hv.due a ha
    obtain ⟨n', hs, -⟩ := hr.slept b hb
    exact hd.not_mem_sleepers hv.housed n' (hab ▸ hs)
  · -- some slept on this channel before, too
    have hn0 : v.traffic.sleepers n ≠ [] := fun h => by
      have hsub := (he.channels n).sleepers
      rw [show (v.traffic.host.bus.channel n).sleepers = [] from h] at hsub
      exact hn (List.sublist_nil.1 hsub)
    unfold Watch.due at *
    rw [hw, List.countP_append]
    calc (v'.traffic.queue n).length
        ≤ (v.traffic.queue n).length + l.countP (isOn v.traffic n) := hr.enough n hn
      _ ≤ v.woken.countP (isOn v.traffic n) + l.countP (isOn v.traffic n) := Nat.add_le_add_right (hv.enough n hn0) _
      _ ≤ v.woken.countP (isOn v'.traffic n) + l.countP (isOn v'.traffic n) :=
        Nat.add_le_add (List.countP_mono_left fun _ _ => hon) (List.countP_mono_left fun _ _ => hon)

theorem Alert.turn (hv : v.Alert) {i : Nat} {token : Option TokenId} {p : Poll} {s' : Poll.Scene}
    (ht : v.traffic.Turn v'.traffic i token p s')
    (hw : v'.woken = if p.phase = .looking then v.woken.erase i else v.woken) : v'.Alert := by
  have hself := hv.housed.self i token p ht.was
  obtain ⟨-, hc, -⟩ := ht.moves.self_channel
  have hkept {k : Nat} (hk : k ≠ i) : k ∈ v'.woken ↔ k ∈ v.woken := by
    rw [hw]
    split
    · exact List.mem_erase_of_ne hk
    · exact Iff.rfl
  have hon (n : String) (k : Nat) : isOn v'.traffic n k = isOn v.traffic n k := by
    unfold isOn
    by_cases hk : k = i
    · rw [hk, ht.now, ht.was, Option.any_some, Option.any_some]
      exact congrArg (· == n) hc
    · rw [ht.others hk]
  refine ⟨hv.housed.turn ht, fun k hk => ?_, fun k tok q hq ha => ?_, ?_, fun n hn => ?_⟩
  · by_cases hki : k = i
    · -- it has not looked yet, so it was woken and looks next
      subst hki
      have hnot : p.phase ≠ .looking := fun h => by
        rw [hw, if_pos h] at hk
        exact (hv.once.mem_erase_iff.1 hk).1 rfl
      rw [hw, if_neg hnot] at hk
      obtain ⟨n, _, q, hq, hn, hd⟩ := hv.due k hk
      rw [ht.was] at hq
      cases hq
      obtain ⟨ha, hno⟩ := hd.resolve_right hnot
      exact ⟨n, token, s'.poll, ht.now, hc.trans hn, .inr (ht.moves.woken ha (by rw [hself, hn]; exact hno))⟩
    · obtain ⟨n, tok, q, hq, hn, hd⟩ := hv.due k ((hkept hki).1 hk)
      refine ⟨n, tok, q, by rw [ht.others hki]; exact hq, hn, hd.imp_left fun ⟨ha, hno⟩ => ⟨ha, fun h => hno ?_⟩⟩
      exact (ht.mem_sleepers hv.housed hki).1 h
  · rcases ht.cases hq with ⟨rfl, -, rfl⟩ | ⟨hk, hq0⟩
    · refine .inl ⟨tok, s'.poll, hq, rfl, ha, ?_⟩
      rw [hc]
      rcases ht.sleepers_cases hv.housed with ⟨-, hno, -⟩ | ⟨-, -, -, hs⟩ | ⟨-, hl, -⟩
      · exact absurd ha hno
      · rw [hs]; exact List.mem_append_right _ (List.mem_singleton_self k)
      · rw [ha] at hl; cases hl
    · rcases hv.asleep k tok q hq0 ha with ⟨_, _, _, _, _, hs⟩ | hm
      · exact .inl ⟨tok, q, hq, rfl, ha, (ht.mem_sleepers hv.housed hk).2 hs⟩
      · exact .inr ((hkept hk).2 hm)
  · rw [hw]
    split
    · exact hv.once.erase i
    · exact hv.once
  · have hdue : v'.due n = v'.woken.countP (isOn v.traffic n) := congrArg (v'.woken.countP ·) (funext (hon n))
    by_cases hnc : n = p.channel
    · subst hnc
      -- whoever has looked is due no longer, and has found the queue empty or taken a message
      have hless : v.due p.channel - (if p.phase = .looking then 1 else 0) ≤ v'.due p.channel := by
        rw [hdue, hw]
        unfold Watch.due
        split
        · rw [List.countP_erase]
          split <;> omega
        · exact Nat.le_refl _
      have hfew : (v'.traffic.queue p.channel).length ≤
          (v.traffic.queue p.channel).length - if p.phase = .looking then 1 else 0 := by
        rw [Traffic.queue, ht.channel]
        exact ht.moves.fewer
      rcases ht.sleepers_cases hv.housed with ⟨hs, -⟩ | ⟨hp, -⟩ | ⟨-, -, hs⟩
      · have henough := hv.enough p.channel (hs ▸ hn)
        omega
      · have hq := hv.housed.empty i token p ht.was (by rw [hp]; trivial)
        rw [hq, List.length_nil] at hfew
        omega
      · have henough := hv.enough p.channel fun h => hn (by rw [hs, h]; rfl)
        omega
    · have hcount : v'.due n = v.due n := by
        rw [hdue, hw]
        split
        · -- the poller whose turn it is waits on another channel
          rw [List.countP_erase, if_neg, Nat.sub_zero]
          · rfl
          · rintro ⟨-, h⟩
            obtain ⟨_, q, hq, hqn⟩ := isOn_iff.1 h
            rw [ht.was] at hq
            cases hq
            exact hnc hqn.symm
        · rfl
      unfold Traffic.sleepers at hn
      rw [Traffic.queue, hcount]
      rw [ht.channel_of_ne hnc] at hn ⊢
      exact hv.enough n hn

theorem alert_after {e : Happening} (hv : v.Alert) (hs : v.step e = some v') : v'.Alert := by
  cases e with
  | stir i =>
    obtain ⟨w', hw, rfl⟩ := Option.map_eq_some_iff.1 hs
    exact hv.roused (rouses_of_rouse hv.housed hw) rfl
  | act a =>
    obtain ⟨w', hw, rfl⟩ := Option.map_eq_some_iff.1 hs
    by_cases ha : ∃ i, a = .goOn i
    · obtain ⟨i, rfl⟩ := ha
      obtain ⟨token, p, s', ht⟩ := Traffic.turn_of_step hw
      refine hv.turn ht ?_
      simp only [wakes, List.append_nil, stillDue, ht.was, Option.any_some, beq_iff_eq, hv.once.erase_eq_filter]
    · have ha : ∀ i, a ≠ .goOn i := fun i h => ha ⟨i, h⟩
      refine hv.roused (rouses_of_step hv.housed ha hw) ?_
      cases a with
      | goOn i => exact absurd rfl (ha i)
      | reach | post | poll | await | stop | goOnStopping | elapse => rfl

theorem alert_of_leads {v0 : Watch} (hf : v0.Fresh) (hl : v0.Leads v) : v.Alert := by
  induction hl with
  | refl => exact alert_fresh hf
  | tail _ hs ih =>
    obtain ⟨e, hs⟩ := hs
    exact alert_after ih hs

end

/-! ## The theorem -/

/-- A woken poller goes on as soon as nobody holds the queue. -/
theorem Due.goes_on {w : Traffic} (hw : w.Housed) {k : Nat} {n : String} (hd : Due w k n)
    (hf : w.host.isFree n = true) : (w.step (.goOn k)).isSome = true := by
  obtain ⟨token, p, hp, rfl, hd⟩ := hd
  have hfree := Traffic.isFree_iff.1 hf
  rcases hd with ⟨ha, hno⟩ | hl
  · have hself := hw.self k token p hp
    unfold Traffic.sleepers at hno
    unfold Traffic.step Host.stepPoll Poll.step Poll.takeQueue
    simp [hp, ha, hself, hno, hfree]
  · -- a poller that looks holds the queue
    have hh := hw.holds k token p hp (by rw [hl]; trivial)
    rw [hfree] at hh
    cases hh

/-- However a bus is used, no message is slept through: while a poller is parked on a channel that has
messages, there are at least as many pollers of the channel that have been woken and have not looked
since, and each of them goes on once nobody holds the queue. A poller that sleeps is parked or is among
the woken. -/
theorem no_message_slept_through {v0 v : Watch} (hf : v0.Fresh) (hl : v0.Leads v) :
    (∀ i n, v.traffic.Parked i n → v.traffic.queue n ≠ [] →
      (v.traffic.queue n).length ≤ v.due n ∧ ∃ k ∈ v.woken, Due v.traffic k n) ∧
    (∀ k ∈ v.woken, ∃ n, Due v.traffic k n ∧ (v.traffic.host.isFree n = true → (v.step (.act (.goOn k))).isSome = true)) ∧
    ∀ (i : Nat) token p, v.traffic.waits[i]? = some (token, p) → p.phase = .asleep →
      (v.traffic.Parked i p.channel ↔ i ∉ v.woken) := by
  have hv := alert_of_leads hf hl
  refine ⟨fun i n hp hq => ?_, fun k hk => ?_, fun i token p hp ha => ⟨fun hpark hi => ?_, fun hi => ?_⟩⟩
  · obtain ⟨_, _, _, _, _, hi⟩ := hp
    have henough := hv.enough n (List.ne_nil_of_mem hi)
    have hpos := List.length_pos_of_ne_nil hq
    refine ⟨henough, ?_⟩
    obtain ⟨k, hk, hon⟩ := List.countP_pos_iff.1 (Nat.lt_of_lt_of_le hpos henough)
    -- whoever is due is so on its own channel
    obtain ⟨n', token, p, hp, hn', hd⟩ := hv.due k hk
    obtain ⟨_, q, hq, hn⟩ := isOn_iff.1 hon
    rw [hp] at hq
    cases hq
    exact ⟨k, hk, token, p, hp, hn, hn ▸ hn' ▸ hd⟩
  · obtain ⟨n, hd⟩ := hv.due k hk
    refine ⟨n, hd, fun hfree => ?_⟩
    have hgo := hd.goes_on hv.housed hfree
    unfold Watch.step
    rw [Option.isSome_map]
    exact hgo
  · obtain ⟨n, hd⟩ := hv.due i hi
    obtain ⟨_, _, _, _, _, hs⟩ := hpark
    exact hd.not_mem_sleepers hv.housed _ hs
  · exact (hv.asleep i token p hp ha).resolve_right hi

/-- Two pollers fall asleep on a channel, and one message comes. -/
def overslept : List Happening :=
  [.act (.await "a" none none), .act (.await "a" none none)] ++ List.replicate 5 (.act (.goOn 0)) ++
    List.replicate 5 (.act (.goOn 1)) ++ [.act (.post "a" ⟨⟨0⟩, "only", none⟩)]

theorem overslept_by_one : ∃ v, Leads { traffic := .narrow } v ∧ v.traffic.Parked 1 "a" ∧ v.traffic.queue "a" ≠ [] ∧
    ∃ k ∈ v.woken, Due v.traffic k "a" := by
  have hp : (overslept.foldlM step { traffic := .narrow }).any (fun v =>
      decide (1 ∈ v.traffic.sleepers "a" ∧ v.traffic.queue "a" ≠ [])) = true := by decide +kernel
  obtain ⟨v, hs, hd⟩ := (Option.any_eq_true _ _).1 hp
  obtain ⟨hi, hq⟩ := of_decide_eq_true hd
  have hf : Fresh { traffic := .narrow } := ⟨⟨rfl, rfl, rfl, rfl⟩, rfl, rfl⟩
  have hl := leads_of_played hs
  have hpark := (alert_of_leads hf hl).housed.parked "a" 1 hi
  exact ⟨v, hl, hpark, hq, ((no_message_slept_through hf hl).1 1 "a" hpark hq).2⟩

end Scripting.Watch
