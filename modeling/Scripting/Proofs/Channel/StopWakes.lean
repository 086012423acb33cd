/-
A stop reaches whoever waits. A poller registers its waker before it takes the queue, and looks at its
flag while it holds it; a stop request raises the flag before it lists the wakers, and takes the queue
for a moment before it wakes the sleepers. So when a flag is up while a poller of its token is about to
fall asleep or sleeps, a request is on its way that will still wake the sleepers of that channel
(`Heeded.heard`), and once the request that raised the flag is through nobody of that token is asleep.
-/
import Scripting.Proofs.Channel.Watch

namespace Scripting

namespace Traffic

/-- A poller falls asleep next, or it sleeps and nobody has woken it. -/
def Drowsy (w : Traffic) (i : Nat) (p : Poll) : Prop :=
  p.phase = .tired ∨ p.phase = .asleep ∧ i ∈ w.sleepers p.channel

theorem Drowsy.guarded {w : Traffic} {i : Nat} {p : Poll} (h : w.Drowsy i p) : p.phase.guarded := by
  rcases h with h | ⟨h, -⟩ <;> rw [h] <;> trivial

structure Heeded (w : Traffic) : Prop where
  housed : w.Housed
  /-- Who may have to be woken has a waker registered. -/
  waker : ∀ (i : Nat) t p, w.waits[i]? = some (some t, p) → p.phase.guarded → ∀ s, w.host.token? t = some s →
    ∃ k, p.waker = some k ∧ k < s.nextWaker ∧ Assoc.find? k s.wakers = some p.channel
  /-- No two have the same. -/
  apart : ∀ (i j : Nat) t p q, w.waits[i]? = some (some t, p) → w.waits[j]? = some (some t, q) →
    p.phase.guarded → q.phase.guarded → (w.host.token? t).isSome → ∀ k, p.waker = some k → q.waker = some k → i = j
  heard : ∀ (i : Nat) t p, w.waits[i]? = some (some t, p) → w.Drowsy i p → w.host.isStopped t = true →
    ∃ (j : Nat) (r : StopRequest), w.stops[j]? = some r ∧ r.token = t ∧ r.phase.reaches p.channel
  late : ∀ (i : Nat) token p, w.waits[i]? = some (token, p) → p.phase.isLate →
    p.deadline.any (· ≤ w.host.clock) = true
  raised : ∀ (j : Nat) (r : StopRequest), w.stops[j]? = some r → r.phase.underway → w.host.isStopped r.token = true
  /-- One request at most is on its way for a token. -/
  one : ∀ (j k : Nat) (r s : StopRequest), w.stops[j]? = some r → w.stops[k]? = some s → r.token = s.token →
    r.phase.underway → s.phase.underway → j = k

section

variable {w w' : Traffic}

theorem heeded_fresh (hf : w.Fresh) (hs : w.stops = []) : w.Heeded := by
  have hn (i : Nat) (x : Option TokenId × Poll) : w.waits[i]? ≠ some x := by
    rw [hf.waits]
    exact nofun
  have hr (j : Nat) (r : StopRequest) : w.stops[j]? ≠ some r := by
    rw [hs]
    exact nofun
  exact ⟨housed_fresh hf, fun i _ _ hp => absurd hp (hn i _), fun i _ _ _ _ hp => absurd hp (hn i _),
    fun i _ _ hp => absurd hp (hn i _), fun i _ _ hp => absurd hp (hn i _), fun j _ hj => absurd hj (hr j _),
    fun j _ _ _ hj => absurd hj (hr j _)⟩

/-! ## The turn of a poller -/

section Turn

variable {i : Nat} {token : Option TokenId} {p : Poll} {s' : Poll.Scene}

theorem Turn.isStopped (ht : w.Turn w' i token p s') (u : TokenId) : w'.host.isStopped u = w.host.isStopped u := by
  unfold Host.isStopped
  rw [ht.tokens u]
  split
  · rename_i hu
    have h := congrArg (Option.any id) ht.moves.stopped
    subst hu
    simpa [Option.any_map] using h
  · rfl

/-- The turn of a poller leaves the wakers of all others as they are. -/
theorem Turn.waker (ht : w.Turn w' i token p s') (hw : w.Heeded) {k : Nat} (hk : k ≠ i) {t : TokenId} {q : Poll}
    (hq : w.waits[k]? = some (some t, q)) (hg : q.phase.guarded) {s : StopToken WokenChannel}
    (hs : w'.host.token? t = some s) :
    ∃ n, q.waker = some n ∧ n < s.nextWaker ∧ Assoc.find? n s.wakers = some q.channel := by
  rw [ht.tokens t] at hs
  split at hs
  · rename_i htok
    subst htok
    rcases ht.moves.token with ⟨h, -⟩ | ⟨t0, h, h', -⟩ | ⟨hgp, -, h⟩
    · exact hw.waker k t q hq hg s (h.symm.trans hs)
    · -- one more was registered, under a number that nobody has
      obtain ⟨n, hn, hlt, hf⟩ := hw.waker k t q hq hg t0 h
      rw [h'] at hs
      cases hs
      refine ⟨n, hn, Nat.lt_succ_of_lt hlt, ?_⟩
      unfold StopToken.onStop
      rw [Assoc.find?_insert_of_ne (Nat.ne_of_lt hlt)]
      exact hf
    · -- the one that is taken away is another
      rw [hs] at h
      obtain ⟨t0, ht0, h⟩ := Option.map_eq_some_iff.1 h.symm
      obtain ⟨n0, hn0, -⟩ := hw.waker i t p ht.was hgp t0 ht0
      obtain ⟨n, hn, hlt, hf⟩ := hw.waker k t q hq hg t0 ht0
      have hne : n ≠ n0 := fun h => hk (hw.apart k i t q p hq ht.was hg hgp (by
        rw [show w.host.token? t = some t0 from ht0]; rfl) n hn (h ▸ hn0))
      simp only [hn0, Option.map_some, Option.getD_some] at h
      subst h
      refine ⟨n, hn, hlt, ?_⟩
      unfold StopToken.drop
      rw [Assoc.find?_erase_of_ne hne]
      exact hf
  · exact hw.waker k t q hq hg s hs

theorem Heeded.turn (hw : w.Heeded) (ht : w.Turn w' i token p s') : w'.Heeded := by
  obtain ⟨-, hc, hd⟩ := ht.moves.self_channel
  have hsome (t : TokenId) : (w'.host.token? t).isSome = (w.host.token? t).isSome := by
    rw [ht.tokens t]
    split
    · rename_i h
      rw [ht.moves.token_isSome, h]
      rfl
    · rfl
  -- the waker of a poller that has just moved is the one that it had, or new
  have hself {t : TokenId} (htok : token = some t) (hg : s'.poll.phase.guarded) {s : StopToken WokenChannel}
      (hs : w.host.token? t = some s) :
      (p.phase.guarded ∧ s'.poll.waker = p.waker ∧ w'.host.token? t = some s) ∨
      (s'.poll.waker = some s.nextWaker ∧ w'.host.token? t = some (s.onStop p.channel).1) := by
    subst htok
    have htok := ht.tokens t
    rw [if_pos rfl] at htok
    rcases ht.moves.token with ⟨h, hwk, hback⟩ | ⟨t0, h, h', hwk⟩ | ⟨-, h, -⟩
    · rcases hback hg with hg | hnone
      · exact .inl ⟨hg, hwk, by rw [htok, h]; exact hs⟩
      · exact absurd (hs.symm.trans hnone) nofun
    · obtain rfl : s = t0 := Option.some.inj (hs.symm.trans h)
      exact .inr ⟨hwk, htok.trans h'⟩
    · exact absurd hg h
  refine ⟨hw.housed.turn ht, ?_, ?_, ?_, ?_, ?_, ?_⟩
  · intro k t q hq hg s hs
    rcases ht.cases hq with ⟨rfl, htok, rfl⟩ | ⟨hk, hq⟩
    · obtain ⟨s0, hs0⟩ := Option.isSome_iff_exists.1 ((hsome t) ▸ (by rw [hs]; rfl : (w'.host.token? t).isSome = true))
      rcases hself htok.symm hg hs0 with ⟨hgp, hwk, h⟩ | ⟨hwk, h⟩
      · rw [hs] at h
        cases h
        rw [hwk, hc]
        subst htok
        exact hw.waker k t p ht.was hgp s hs0
      · rw [hs] at h
        cases h
        rw [hc]
        exact ⟨_, hwk, Nat.lt_succ_self _, Assoc.find?_insert_self _ _ _⟩
    · exact ht.waker hw hk hq hg hs
  · -- a new number is none that another has
    have hnew {k : Nat} (hk : k ≠ i) {t : TokenId} {q : Poll} (hq : w.waits[k]? = some (some t, q))
        (hg : q.phase.guarded) (htok : token = some t) (hg' : s'.poll.phase.guarded)
        (hsm : (w.host.token? t).isSome = true) {n : Nat} (hn : q.waker = some n) (hn' : s'.poll.waker = some n) : False := by
      obtain ⟨s, hs⟩ := Option.isSome_iff_exists.1 hsm
      rcases hself htok hg' hs with ⟨hgp, hwk, -⟩ | ⟨hwk, -⟩
      · subst htok
        exact hk (hw.apart k i t q p hq ht.was hg hgp hsm n hn (hwk ▸ hn'))
      · obtain ⟨n0, hn0, hlt, -⟩ := hw.waker k t q hq hg s hs
        rw [hn] at hn0
        cases hn0
        rw [hwk] at hn'
        cases hn'
        exact Nat.lt_irrefl _ hlt
    intro k l t q r hq hr hgq hgr hsm n hn hn'
    rw [hsome] at hsm
    rcases ht.cases hq with ⟨rfl, htok, rfl⟩ | ⟨hk, hq⟩ <;> rcases ht.cases hr with ⟨rfl, htok', rfl⟩ | ⟨hl, hr⟩
    · rfl
    · exact (hnew hl hr hgr htok.symm hgq hsm hn' hn).elim
    · exact (hnew hk hq hgq htok'.symm hgr hsm hn hn').elim
    · exact hw.apart k l t q r hq hr hgq hgr hsm n hn hn'
  · intro k t q hq hdr hst
    rw [ht.isStopped] at hst
    rw [ht.stops]
    rcases ht.cases hq with ⟨rfl, htok, rfl⟩ | ⟨hk, hq⟩
    · rcases hdr with htired | ⟨ha, hmem⟩
      · -- it has just found its flag down
        have hdown := ht.moves.tired htired
        subst htok
        rw [show w.host.isStopped t = false from hdown] at hst
        cases hst
      · rcases ht.sleepers_cases hw.housed with ⟨-, h, -⟩ | ⟨h, -⟩ | ⟨-, h, -⟩
        · exact absurd ha h
        · subst htok
          rw [hc]
          exact hw.heard k t p ht.was (.inl h) hst
        · rw [ha] at h; cases h
    · exact hw.heard k t q hq (hdr.imp_right fun ⟨ha, hm⟩ => ⟨ha, (ht.mem_sleepers hw.housed hk).1 hm⟩) hst
  · intro k tok q hq hl
    rw [ht.clock]
    rcases ht.cases hq with ⟨rfl, -, rfl⟩ | ⟨hk, hq⟩
    · rw [hd]
      exact (ht.moves.isLate hl).elim (hw.late k token p ht.was) id
    · exact hw.late k tok q hq hl
  · intro j r hj hu
    rw [ht.stops] at hj
    rw [ht.isStopped]
    exact hw.raised j r hj hu
  · rw [ht.stops]
    exact hw.one

end Turn

/-! ## Others -/

/-- No stop request makes a move; one may come. -/
structure Calm (w w' : Traffic) : Prop where
  eased : w.Eased w'
  tokens : ∀ t, w'.host.token? t = w.host.token? t
  clock : w.host.clock ≤ w'.host.clock
  stops : w'.stops = w.stops ∨ ∃ t, w'.stops = w.stops ++ [{ token := t }]

theorem calm_of_step {a : Act} (ha : ∀ i, a ≠ .goOn i) (hj : ∀ j, a ≠ .goOnStopping j) (hs : w.step a = some w') :
    w.Calm w' := by
  have he := eased_of_step ha hs
  cases a with
  | goOn i => exact absurd rfl (ha i)
  | goOnStopping j => exact absurd rfl (hj j)
  | post n m | poll n =>
    simp only [step] at hs
    split at hs
    · cases hs
      exact ⟨he, fun _ => rfl, Nat.le_refl _, .inl rfl⟩
    · cases hs
  | reach n | await n deadline token =>
    cases hs
    exact ⟨he, fun _ => rfl, Nat.le_refl _, .inl rfl⟩
  | stop t =>
    cases hs
    exact ⟨he, fun _ => rfl, Nat.le_refl _, .inr ⟨t, rfl⟩⟩
  | elapse millis =>
    cases hs
    exact ⟨he, fun _ => rfl, Nat.le_add_right _ _, .inl rfl⟩

theorem Calm.stop? (hc : w.Calm w') {j : Nat} {r : StopRequest} (hr : w'.stops[j]? = some r) :
    w.stops[j]? = some r ∨ r.phase = .start := by
  rcases hc.stops with h | ⟨t, h⟩ <;> rw [h] at hr
  · exact .inl hr
  · rw [List.getElem?_append] at hr
    split at hr
    · exact .inl hr
    · rw [List.getElem?_singleton] at hr
      split at hr <;> cases hr
      exact .inr rfl

theorem Calm.underway (hc : w.Calm w') {j : Nat} {r : StopRequest} (hr : w'.stops[j]? = some r)
    (hu : r.phase.underway) : w.stops[j]? = some r :=
  (hc.stop? hr).resolve_right fun h => by rw [h] at hu; exact hu

theorem Calm.stop_kept (hc : w.Calm w') {j : Nat} {r : StopRequest} (hr : w.stops[j]? = some r) :
    w'.stops[j]? = some r := by
  rcases hc.stops with h | ⟨t, h⟩ <;> rw [h]
  · exact hr
  · rw [List.getElem?_append_left (List.getElem?_eq_some_iff.1 hr).1]
    exact hr

theorem Calm.isStopped (hc : w.Calm w') (t : TokenId) : w'.host.isStopped t = w.host.isStopped t := by
  unfold Host.isStopped
  rw [hc.tokens]

/-- Who is drowsy after the channels were eased was so before. -/
theorem Eased.drowsy (he : w.Eased w') {i : Nat} {p : Poll} (h : w'.Drowsy i p) : w.Drowsy i p :=
  h.imp_right fun ⟨ha, hm⟩ => ⟨ha, (he.channels _).sleepers.subset hm⟩

/-- A poller that has just come holds nothing and has no waker. -/
theorem Eased.guarded (he : w.Eased w') {i : Nat} {token : Option TokenId} {p : Poll}
    (hp : w'.waits[i]? = some (token, p)) (hg : p.phase.guarded) : w.waits[i]? = some (token, p) := by
  rcases he.cases hp with hp | ⟨-, -, harr⟩
  · exact hp
  · rw [harr] at hg; exact hg.elim

theorem isLate_guarded {p : Poll.Phase} (h : p.isLate) : p.guarded := by
  cases p <;> trivial

theorem Heeded.calm (hw : w.Heeded) (hc : w.Calm w') : w'.Heeded := by
  have he := hc.eased
  refine ⟨hw.housed.eased he, fun i t p hp hg s hs => ?_, fun i j t p q hp hq hgp hgq hsm => ?_,
    fun i t p hp hd hst => ?_, fun i token p hp hl => ?_, fun j r hj hu => ?_, fun j k r s hj hk htok hr hs => ?_⟩
  · exact hw.waker i t p (he.guarded hp hg) hg s (hc.tokens t ▸ hs)
  · exact hw.apart i j t p q (he.guarded hp hgp) (he.guarded hq hgq) hgp hgq (hc.tokens t ▸ hsm)
  · obtain ⟨j, r, hj, htok, hr⟩ := hw.heard i t p (he.guarded hp hd.guarded) (he.drowsy hd) (hc.isStopped t ▸ hst)
    exact ⟨j, r, hc.stop_kept hj, htok, hr⟩
  · have hdead := hw.late i token p (he.guarded hp (isLate_guarded hl)) hl
    obtain ⟨d, hd, hle⟩ := (Option.any_eq_true _ _).1 hdead
    have hle := of_decide_eq_true hle
    exact (Option.any_eq_true _ _).2 ⟨d, hd, decide_eq_true (Nat.le_trans hle hc.clock)⟩
  · rw [hc.isStopped]
    exact hw.raised j r (hc.underway hj hu) hu
  · exact hw.one j k r s (hc.underway hj hr) (hc.underway hk hs) htok hr hs

/-! ## The turn of a stop request -/

/-- A stop request makes a move. -/
structure StopTurn (w w' : Traffic) (j : Nat) (r r' : StopRequest) : Prop where
  eased : w.Eased w'
  was : w.stops[j]? = some r
  moves : r.Moves w.host w'.host r'.phase
  stops : w'.stops = w.stops.set j r'
  token : r'.token = r.token
  waits : w'.waits = w.waits
  clock : w'.host.clock = w.host.clock

theorem stopTurn_of_step {j : Nat} (hs : w.step (.goOnStopping j) = some w') : ∃ r r', w.StopTurn w' j r r' := by
  have he := eased_of_step (fun i h => by cases h) hs
  obtain ⟨r, r', h', hr, hstep, rfl⟩ := goOnStopping_eq_some hs
  obtain ⟨hm, hr'⟩ := StopRequest.moves_of_step hstep
  exact ⟨r, r', he, hr, hm, rfl, by rw [hr'], rfl, hm.clock⟩

section StopTurn

variable {j : Nat} {r r' : StopRequest}

theorem StopTurn.now (ht : w.StopTurn w' j r r') : w'.stops[j]? = some r' := by
  rw [ht.stops, List.getElem?_set_self (List.getElem?_eq_some_iff.1 ht.was).1]

theorem StopTurn.others (ht : w.StopTurn w' j r r') {k : Nat} (hk : k ≠ j) : w'.stops[k]? = w.stops[k]? := by
  rw [ht.stops, List.getElem?_set_ne (Ne.symm hk)]

/-- A request after the turn is the one whose turn it was, or another as it was. -/
theorem StopTurn.cases (ht : w.StopTurn w' j r r') {k : Nat} {s : StopRequest} (hs : w'.stops[k]? = some s) :
    (k = j ∧ s = r') ∨ (k ≠ j ∧ w.stops[k]? = some s) := by
  by_cases hk : k = j
  · subst hk
    rw [ht.now] at hs
    cases hs
    exact .inl ⟨rfl, rfl⟩
  · exact .inr ⟨hk, by rw [← ht.others hk]; exact hs⟩

/-- A flag that was up stays up. -/
theorem StopTurn.flag (ht : w.StopTurn w' j r r') {t : TokenId} (h : w.host.isStopped t = true) :
    w'.host.isStopped t = true := by
  rcases ht.moves.isStopped t with h' | ⟨-, -, h', -⟩
  · rw [h']; exact h
  · exact h'

/-- Another request that is on its way was so before; and none is where the flag has just gone up. -/
theorem Heeded.stopTurn_one (hw : w.Heeded) (ht : w.StopTurn w' j r r') {k : Nat} {s : StopRequest} (hk : k ≠ j)
    (hs : w.stops[k]? = some s) (htok : s.token = r.token) (hu : s.phase.underway) (hu' : r'.phase.underway) : False := by
  rcases ht.moves.underway hu' with ⟨hr, -⟩ | ⟨hdown, -⟩
  · exact hk (hw.one k j s r hs ht.was htok hu hr)
  · have hup := hw.raised k s hs hu
    rw [htok, hdown] at hup
    cases hup

theorem Heeded.heard_after (hw : w.Heeded) (ht : w.StopTurn w' j r r') {i : Nat} {t : TokenId} {p : Poll}
    (hp : w'.waits[i]? = some (some t, p)) (hd : w'.Drowsy i p) (hst : w'.host.isStopped t = true) :
    ∃ (k : Nat) (s : StopRequest), w'.stops[k]? = some s ∧ s.token = t ∧ s.phase.reaches p.channel := by
  have hp0 : w.waits[i]? = some (some t, p) := ht.waits ▸ hp
  have hd0 := ht.eased.drowsy hd
  rcases ht.moves.isStopped t with hsame | ⟨htok, -, -, -, hraised⟩
  · rw [hsame] at hst
    obtain ⟨k, s, hk, htok, hr⟩ := hw.heard i t p hp0 hd0 hst
    by_cases hkj : k = j
    · -- the request whose turn it is goes on to reach the channel
      subst hkj
      rw [ht.was] at hk
      cases hk
      refine ⟨k, r', ht.now, ht.token.trans htok, ?_⟩
      have hm := ht.moves
      generalize hphase : r'.phase = phase at hm ⊢
      generalize hhost : w'.host = h' at hm
      cases hm with
      | needless h _ | raise h _ _ | finish h => rw [h] at hr; first | exact hr.elim | cases hr
      | list h =>
        -- the waker of a drowsy poller is on the list
        obtain ⟨s, hs, -⟩ := (Option.any_eq_true _ _).1 hst
        obtain ⟨n, -, -, hf⟩ := hw.waker i t p hp0 hd0.guarded s hs
        rw [htok, hs]
        exact List.mem_map_of_mem (f := Prod.snd) (Assoc.mem_of_find? hf)
      | @wake c left h hfree =>
        rw [h] at hr
        rcases List.mem_cons.1 hr with hc | hr
        · -- the sleepers of the channel have just been woken, while nobody held the queue
          exfalso
          rcases hd with htired | ⟨-, hm⟩
          · have hh := hw.housed.holds i (some t) p hp0 (by rw [htired]; trivial)
            rw [hc, isFree_iff.1 hfree] at hh
            cases hh
          · unfold sleepers at hm
            rw [hhost, hc, Bus.channel_setChannel_self] at hm
            cases hm
        · exact hr
    · exact ⟨k, s, by rw [ht.others hkj]; exact hk, htok, hr⟩
  · exact ⟨j, r', ht.now, ht.token.trans htok.symm, by rw [hraised]; trivial⟩

theorem Heeded.stopTurn (hw : w.Heeded) (ht : w.StopTurn w' j r r') : w'.Heeded := by
  refine ⟨hw.housed.eased ht.eased, fun i t p hp hg s hs => ?_, fun i k t p q hp hq hgp hgq hsm => ?_,
    fun i t p => hw.heard_after ht, fun i token p hp hl => ?_, fun k s hk hu => ?_, fun k l s s' hk hl htok hu hu' => ?_⟩
  · obtain ⟨s0, hs0, hwk, hnext⟩ := ht.moves.wakers hs
    rw [hwk, hnext]
    exact hw.waker i t p (ht.waits ▸ hp) hg s0 hs0
  · obtain ⟨s, hs⟩ := Option.isSome_iff_exists.1 hsm
    obtain ⟨s0, hs0, -⟩ := ht.moves.wakers hs
    exact hw.apart i k t p q (ht.waits ▸ hp) (ht.waits ▸ hq) hgp hgq (by rw [hs0]; rfl)
  · rw [ht.clock]
    exact hw.late i token p (ht.waits ▸ hp) hl
  · rcases ht.cases hk with ⟨rfl, rfl⟩ | ⟨-, hk⟩
    · rw [ht.token]
      rcases ht.moves.underway hu with ⟨hr, hsame⟩ | ⟨-, hup⟩
      · rw [hsame]; exact hw.raised k r ht.was hr
      · exact hup
    · exact ht.flag (hw.raised k s hk hu)
  · rcases ht.cases hk with ⟨rfl, rfl⟩ | ⟨hkj, hk⟩ <;> rcases ht.cases hl with ⟨rfl, rfl⟩ | ⟨hlj, hl⟩
    · rfl
    · exact (hw.stopTurn_one ht hlj hl (htok.symm.trans ht.token) hu' hu).elim
    · exact (hw.stopTurn_one ht hkj hk (htok.trans ht.token) hu hu').elim
    · exact hw.one k l s s' hk hl htok hu hu'

end StopTurn

end

end Traffic

/-! ## The theorem -/

namespace Watch

variable {v0 v v' : Watch}

/-- Whatever happens is the turn of a poller or of a stop request, or leaves all of them where they are. -/
theorem step_cases {e : Happening} (hs : v.step e = some v') :
    (∃ i token p s', v.traffic.Turn v'.traffic i token p s') ∨
    (∃ j r r', v.traffic.StopTurn v'.traffic j r r') ∨ v.traffic.Calm v'.traffic := by
  cases e with
  | stir i =>
    obtain ⟨w', hw, rfl⟩ := Option.map_eq_some_iff.1 hs
    have he := eased_of_rouse hw
    obtain ⟨token, p, -, -, rfl⟩ := rouse_eq_some hw
    exact .inr (.inr ⟨he, fun _ => rfl, Nat.le_refl _, .inl rfl⟩)
  | act a =>
    obtain ⟨w', hw, rfl⟩ := Option.map_eq_some_iff.1 hs
    cases a with
    | goOn i =>
      obtain ⟨token, p, s', ht⟩ := Traffic.turn_of_step hw
      exact .inl ⟨i, token, p, s', ht⟩
    | goOnStopping j =>
      obtain ⟨r, r', ht⟩ := Traffic.stopTurn_of_step hw
      exact .inr (.inl ⟨j, r, r', ht⟩)
    | reach | post | poll | await | stop | elapse =>
      exact .inr (.inr (Traffic.calm_of_step (fun _ h => by cases h) (fun _ h => by cases h) hw))

theorem heeded_of_leads (hf : v0.Fresh) (hl : v0.Leads v) : v.traffic.Heeded := by
  induction hl with
  | refl => exact Traffic.heeded_fresh hf.traffic hf.stops
  | tail _ hs ih =>
    obtain ⟨e, hs⟩ := hs
    rcases step_cases hs with ⟨i, token, p, s', ht⟩ | ⟨j, r, r', ht⟩ | hc
    · exact ih.turn ht
    · exact ih.stopTurn ht
    · exact ih.calm hc

/-- The flag of a token is up, and no request but this one is on its way for it. -/
structure RaisedBy (w : Traffic) (j : Nat) (t : TokenId) : Prop where
  flag : w.host.isStopped t = true
  others : ∀ (k : Nat) (s : StopRequest), k ≠ j → w.stops[k]? = some s → s.token = t → ¬ s.phase.underway

theorem RaisedBy.after {j : Nat} {t : TokenId} (hr : RaisedBy v.traffic j t) {e : Happening} (hs : v.step e = some v') :
    RaisedBy v'.traffic j t := by
  rcases step_cases hs with ⟨i, token, p, s', ht⟩ | ⟨k, r, r', ht⟩ | hc
  · exact ⟨by rw [ht.isStopped]; exact hr.flag, by rw [ht.stops]; exact hr.others⟩
  · refine ⟨ht.flag hr.flag, fun l s hl hs htok hu => ?_⟩
    rcases ht.cases hs with ⟨rfl, rfl⟩ | ⟨-, hs⟩
    · -- a request that begins finds the flag up
      rcases ht.moves.underway hu with ⟨hu, -⟩ | ⟨hdown, -⟩
      · exact hr.others l r hl ht.was (ht.token.symm.trans htok) hu
      · rw [← ht.token, htok, hr.flag] at hdown
        cases hdown
    · exact hr.others l s hl hs htok hu
  · exact ⟨by rw [hc.isStopped]; exact hr.flag, fun k s hk hs htok hu => hr.others k s hk (hc.underway hs hu) htok hu⟩

/-- A poller comes to its result while it holds the queue: the oldest message, or none where there is none
and its time is up or its flag is. -/
structure Decides (w : Traffic) (i : Nat) (token : Option TokenId) (p : Poll) (r : Option Message) : Prop where
  holds : (w.host.bus.channel p.channel).holder = some i
  oldest : r = (w.queue p.channel).head?
  early : r = none → (∀ d, p.deadline = some d → w.host.clock < d) → ∃ t, token = some t ∧ w.host.isStopped t = true

theorem decides_of_turn {w w' : Traffic} (hw : w.Heeded) {i : Nat} {token : Option TokenId} {p : Poll} {s' : Poll.Scene}
    (ht : w.Turn w' i token p s') (hn : p.verdict? = none) {r : Option Message} (hr : s'.poll.verdict? = some r) :
    Decides w i token p r := by
  obtain ⟨hh, hhead, hnone⟩ := ht.moves.verdict? (hw.housed.empty i token p ht.was) hn hr
  refine ⟨hw.housed.holds i token p ht.was hh, hhead, fun hr hd => ?_⟩
  rcases hnone hr with hst | hl
  · cases token with
    | none => cases hst
    | some t => exact ⟨t, rfl, hst⟩
  · obtain ⟨d, hd', hle⟩ := (Option.any_eq_true _ _).1 (hw.late i token p ht.was hl)
    exact absurd (hd d hd') (Nat.not_lt.2 (of_decide_eq_true hle))

/-- What a poller has come to, it came to at some time. -/
theorem decided_of_leads (hf : v0.Fresh) (hl : v0.Leads v) {i : Nat} {token : Option TokenId} {p : Poll}
    {r : Option Message} (hp : v.traffic.waits[i]? = some (token, p)) (hr : p.verdict? = some r) :
    ∃ v1, v0.Leads v1 ∧ v1.Leads v ∧ Decides v1.traffic i token p r := by
  induction hl generalizing token p with
  | refl =>
    rw [hf.traffic.waits] at hp
    cases hp
  | @tail u v hl hs ih =>
    -- if it had come to it before, then at the time that it did
    have before {q : Poll} (hq : u.traffic.waits[i]? = some (token, q)) (hqr : q.verdict? = some r)
        (hc : p.channel = q.channel ∧ p.deadline = q.deadline) :
        ∃ v1, v0.Leads v1 ∧ v1.Leads v ∧ Decides v1.traffic i token p r := by
      obtain ⟨v1, h01, h1, hd⟩ := ih hq hqr
      exact ⟨v1, h01, h1.tail hs, hc.1 ▸ hd.holds, hc.1 ▸ hd.oldest, hc.2 ▸ hd.early⟩
    obtain ⟨e, hs'⟩ := id hs
    rcases step_cases hs' with ⟨k, tok, q, s', ht⟩ | ⟨j, s, s', ht⟩ | hc
    · rcases ht.cases hp with ⟨rfl, rfl, rfl⟩ | ⟨-, hp⟩
      · obtain ⟨-, hch, hdl⟩ := ht.moves.self_channel
        cases hv : q.verdict? with
        | none =>
          have hd := decides_of_turn (heeded_of_leads hf hl) ht hv hr
          exact ⟨_, hl, .single hs, hch ▸ hd.holds, hch ▸ hd.oldest, hdl ▸ hd.early⟩
        | some r' =>
          have hkept := ht.moves.verdict?_kept hv
          rw [hr] at hkept
          cases hkept
          exact before ht.was hv ⟨hch, hdl⟩
      · exact before hp hr ⟨rfl, rfl⟩
    · exact before (ht.waits ▸ hp) hr ⟨rfl, rfl⟩
    · rcases hc.eased.cases hp with hp | ⟨-, -, harr⟩
      · exact before hp hr ⟨rfl, rfl⟩
      · unfold Poll.verdict? at hr
        rw [harr] at hr
        cases hr

/-- However a bus is used, once the request that raised a flag is through, no poller of that token is
asleep without having been woken. And whatever a poller ends with it came to while it held the queue: the
oldest message there was, whether its flag was up or not; it ended with none before its time only where
the queue was empty and its flag was up. -/
theorem stop_reaches_pollers (hf : v0.Fresh) (hl : v0.Leads v) :
    (∀ v1 (j : Nat) t, v0.Leads v1 → v1.Leads v → v1.traffic.stops[j]? = some { token := t, phase := .raised } →
      v.traffic.stops[j]? = some { token := t, phase := .done } →
      ∀ i n, v.traffic.Parked i n → ∀ p, v.traffic.waits[i]? ≠ some (some t, p)) ∧
    ∀ (i : Nat) token p r, v.traffic.waits[i]? = some (token, p) → p.result? = some r →
      ∃ v1, v0.Leads v1 ∧ v1.Leads v ∧ Decides v1.traffic i token p r := by
  refine ⟨fun v1 j t h01 h1 hj hdone i n hpark p hp => ?_, fun i token p r hp hr =>
    decided_of_leads hf hl hp (Poll.verdict?_of_result? hr)⟩
  have hw1 := heeded_of_leads hf h01
  have hby : RaisedBy v.traffic j t := by
    clear hdone hpark hp hl
    induction h1 with
    | refl => exact ⟨hw1.raised j _ hj trivial, fun k s hk hs htok hu => hk (hw1.one k j s _ hs hj htok hu trivial)⟩
    | tail _ hs ih =>
      obtain ⟨e, hs⟩ := hs
      exact ih.after hs
  obtain ⟨token, q, hq, rfl, ha, hm⟩ := hpark
  rw [hp] at hq
  cases hq
  -- the flag is up, so a request would still have to wake this sleeper
  obtain ⟨k, s, hk, htok, hreach⟩ := (heeded_of_leads hf hl).heard i t p hp (.inr ⟨ha, hm⟩) hby.flag
  by_cases hkj : k = j
  · subst hkj
    rw [hdone] at hk
    cases hk
    exact hreach
  · exact hby.others k s hkj hk htok hreach.underway

/-! ## A run -/

/-- A bus with one stop token, before anybody uses it. -/
def stoppable : Watch where
  traffic := { host := { Host.plain with tokens := [{}] } }

/-- A poller falls asleep, and the flag of its token goes up. -/
def flagged : List Happening :=
  .act (.await "a" none (some 0)) :: List.replicate 5 (.act (.goOn 0)) ++ [.act (.stop 0), .act (.goOnStopping 0)]

/-- The request wakes it, and it ends. -/
def roused : List Happening := List.replicate 3 (.act (.goOnStopping 0)) ++ List.replicate 5 (.act (.goOn 0))

theorem roused_by_stop : ∃ v1 v p, stoppable.Leads v1 ∧ v1.Leads v ∧
    v1.traffic.stops[0]? = some { token := 0, phase := .raised } ∧ v.traffic.waits[0]? = some (some 0, p) ∧
    (∀ n, ¬ v.traffic.Parked 0 n) ∧ p.result? = some none ∧
    ∃ u, stoppable.Leads u ∧ u.Leads v ∧ Decides u.traffic 0 (some 0) p none := by
  have hp : (flagged.foldlM step stoppable).any (fun v1 =>
      decide (v1.traffic.stops[0]? = some { token := 0, phase := .raised }) && (roused.foldlM step v1).any fun v =>
        decide (v.traffic.stops[0]? = some { token := 0, phase := .done }) &&
          (v.traffic.waits[0]?).any fun x => decide (x.1 = some 0 ∧ x.2.result? = some none)) = true := by
    decide +kernel
  obtain ⟨v1, h1, hp⟩ := (Option.any_eq_true _ _).1 hp
  obtain ⟨hraised, hp⟩ := Bool.and_eq_true_iff.1 hp
  obtain ⟨v, h2, hp⟩ := (Option.any_eq_true _ _).1 hp
  obtain ⟨hdone, hp⟩ := Bool.and_eq_true_iff.1 hp
  obtain ⟨⟨token, p⟩, hw, hp⟩ := (Option.any_eq_true _ _).1 hp
  obtain ⟨rfl, hr⟩ := of_decide_eq_true hp
  have hf : stoppable.Fresh := ⟨⟨rfl, rfl, rfl, rfl⟩, rfl, rfl⟩
  have hl1 := leads_of_played h1
  have hl2 := leads_of_played h2
  obtain ⟨hawake, hend⟩ := stop_reaches_pollers hf (hl1.trans hl2)
  exact ⟨v1, v, p, hl1, hl2, of_decide_eq_true hraised, hw, fun n hpark =>
    hawake v1 0 0 hl1 hl2 (of_decide_eq_true hraised) (of_decide_eq_true hdone) 0 n hpark p hw, hr,
    hend 0 (some 0) p none hw hr⟩

end Watch

end Scripting
