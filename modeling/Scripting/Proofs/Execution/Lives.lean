/-
Executions live once. Whatever is asked of executions, by however many callers and in whatever order, each goes
from created to running to finished and no further; one start at most is told that it was the one, and one thread
at most runs the body. What the end leaves is seen by nobody before the end and by everybody after it, and nothing
that is done with one execution shows at another.
-/
import Scripting.Proofs.Acts
import Scripting.Proofs.Execution.Lifecycle

namespace Scripting

/-! ## Ends -/

/-- What the end of an execution leaves behind. -/
inductive Closer.Leaves : Closer → Outcome → Prop
  | returned (v : Value) : Leaves (.body (.value v)) { value := some v, failure := none }
  | stopped : Leaves (.body (.error .stopped)) { value := none, failure := none }
  | failed {e : ScriptError} : e ≠ .stopped → Leaves (.body (.error e)) { value := none, failure := some e.message }
  | panicked (text : Option String) : Leaves (.body (.panic text))
      { value := none, failure := some ("Script panicked: " ++ text.getD "unknown panic") }
  | unspawned (e : SpawnError) : Leaves (.spawn e) { value := none, failure := some e.text }

theorem Closer.leaves_outcome (c : Closer) : c.Leaves c.outcome := by
  cases c with
  | spawn e => exact .unspawned e
  | body ending =>
    cases ending with
    | value v => exact .returned v
    | error e =>
      by_cases he : e = .stopped
      · subst he
        exact .stopped
      · have hleft : (Closer.body (.error e)).outcome = { value := none, failure := some e.message } := by
          cases e with
          | stopped => exact absurd rfl he
          | _ => rfl
        rw [hleft]
        exact .failed he
    | panic text => exact .panicked text

theorem Closer.Leaves.exclusive {c : Closer} {o : Outcome} (h : c.Leaves o) : o.value = none ∨ o.failure = none := by
  cases h with
  | returned => exact .inr rfl
  | _ => exact .inl rfl

namespace Errand

/-- How the execution ends, for who knows: a thread once the body is through, a start once it got no thread. -/
def ends? : Errand → Option Closer
  | .body (.done ending) => some (.body ending)
  | .close c _ | .closed c => some c
  | _ => none

/-- Nothing more is to be done. -/
def isThrough : Errand → Prop
  | .started _ | .closed _ | .joined | .hasRead .. => True
  | _ => False

variable {x : Execution} {e : Errand} {c : Closer}

/-- What was to be left is there once the execution has finished. -/
theorem Tells.left (h : e.Tells x) (hc : e.ends? = some c) (hs : x.state = .finished) : c.Leaves x.outcome := by
  have hout : x.outcome = c.outcome := by
    unfold ends? at hc
    split at hc
    · exact absurd (hs.symm.trans h.1) nofun
    · rename_i stage
      cases hc
      cases stage with
      | notify | unlock => exact h.2
      | lock | value | failure | state => exact absurd (hs.symm.trans h.1) nofun
    · cases hc
      exact h.2
    · cases hc
  rw [hout]
  exact c.leaves_outcome

theorem Tells.ended (h : e.Tells x) (hc : e.isCharged) (hs : x.state = .finished) : ∃ c, e.ends? = some c := by
  cases e with
  | spawn | body => exact absurd (hs.symm.trans h.1) nofun
  | close c | closed c => exact ⟨c, rfl⟩
  | _ => exact hc.elim

/-- No party that is in charge sees two things at once. -/
theorem Tells.exclusive (h : e.Tells x) (hc : e.isCharged) : x.outcome.value = none ∨ x.outcome.failure = none := by
  have hblank (ho : x.outcome = {}) : x.outcome.value = none ∨ x.outcome.failure = none := by
    rw [ho]
    exact .inl rfl
  have hall {c : Closer} (ho : x.outcome = c.outcome) : x.outcome.value = none ∨ x.outcome.failure = none := by
    rw [ho]
    exact c.leaves_outcome.exclusive
  cases e with
  | spawn | body => exact hblank h.2
  | close c stage =>
    cases stage with
    | lock | value => exact hblank h.2
    | failure =>
      rw [h.2]
      exact .inr rfl
    | state | notify | unlock => exact hall h.2
  | closed c => exact hall h.2
  | _ => exact hc.elim

theorem closing_of_holds (hc : e.isCharged) (hh : e.holds) : ∃ c stage, e = .close c stage := by
  cases e with
  | close c stage => exact ⟨c, stage, rfl⟩
  | spawn | body | closed => exact hh.elim
  | _ => exact hc.elim

section

variable {h : Host} {self : Nat} {id : ExecutionId} {l : Option Nat} {m : Move}

theorem Moves.ends? (hm : Moves h self id x l e m) (hc : e.ends? = some c) : m.errand.ends? = some c := by
  cases hm with
  | @run work _ _ hw =>
    cases work with
    | done => cases hw
    | going | polling => cases hc
  | «return» => exact hc
  | closeLock | closeValue | closeFailure | closeState | closeNotify | closeUnlock => exact hc
  | _ => cases hc

theorem Moves.not_isThrough (hm : Moves h self id x l e m) : ¬ e.isThrough := by
  cases hm <;> exact fun h => h

theorem Moves.isBody (hm : Moves h self id x l e m) (hb : e.isBody) : m.errand.isBody := by
  rcases hm.charge with ⟨-, -, hsame, -⟩ | ⟨-, -, -, -, hn⟩ | ⟨hspawn, -⟩
  · exact hsame.2 hb
  · exact absurd hb.isCharged hn
  · rw [hspawn] at hb
    exact hb.elim

end

end Errand

/-! ## What is settled for good -/

/-- A party later on: what it has come to it has come to for good. -/
structure Party.Endures (p q : Party) : Prop where
  execution : q.execution = p.execution
  /-- The thread of an execution is never about anything else. -/
  isBody : p.errand.isBody → q.errand.isBody
  ends : ∀ c, p.errand.ends? = some c → q.errand.ends? = some c
  through : p.errand.isThrough → q = p

namespace Party.Endures

variable {p q r : Party}

theorem refl (p : Party) : p.Endures p := ⟨rfl, fun h => h, fun _ h => h, fun _ => rfl⟩

theorem trans (h : p.Endures q) (h' : q.Endures r) : p.Endures r := by
  refine ⟨h'.execution.trans h.execution, fun hb => h'.isBody (h.isBody hb), fun c hc => h'.ends c (h.ends c hc),
    fun ht => ?_⟩
  obtain rfl := h.through ht
  exact h'.through ht

end Party.Endures

theorem Dealings.Stays.endures {p q : Party} (hs : Dealings.Stays p q) : p.Endures q := by
  rcases hs.errand with h | ⟨h, h'⟩
  · have heq : q = p := by
      cases p
      cases q
      cases hs.execution
      cases h
      rfl
    rw [heq]
    exact .refl p
  · -- who wakes had come to nothing yet
    refine ⟨hs.execution, hs.isBody.2, fun c hc => ?_, fun ht => ?_⟩
    · rw [h] at hc
      cases hc
    · rw [h] at ht
      exact ht.elim

/-- An execution after one step: nothing but the state and the outcome can have changed, the state has gone on by
one at most, and a finished execution has not changed at all. -/
structure Execution.Next (x x' : Execution) : Prop where
  same : x' = { x with state := x'.state, outcome := x'.outcome }
  state : x'.state = x.state ∨ (x.state = .created ∧ x'.state = .running) ∨ (x.state = .running ∧ x'.state = .finished)
  finished : x.state = .finished → x' = x

theorem Execution.Next.refl (x : Execution) : x.Next x := ⟨rfl, .inl rfl, fun _ => rfl⟩

namespace Dealings

variable {d0 d d' : Dealings}

/-- The dealings later on: finished executions are as they were, parties endure, and who knew how its execution
ends was right. -/
structure Endures (d d' : Dealings) : Prop where
  executions : ∀ id x, d.host.execution? id = some x → x.state = .finished → d'.host.execution? id = some x
  parties : ∀ (i : Nat) p, d.parties[i]? = some p → ∃ q, d'.parties[i]? = some q ∧ p.Endures q
  left : ∀ (i : Nat) p c x, d.parties[i]? = some p → p.errand.ends? = some c → d'.host.execution? p.execution = some x →
    x.state = .finished → c.Leaves x.outcome

/-! ## What an act leaves alone -/

/-- An act is about an execution: a caller comes to it, somebody who deals with it makes a move or wakes, or a body
anywhere asks for it to be stopped. -/
def Act.Concerns (d : Dealings) (id : ExecutionId) : Act → Prop
  | .come j _ => j = id
  | .move i => ∃ p, d.parties[i]? = some p ∧ (p.execution = id ∨
      ∃ x resume, d.host.execution? id = some x ∧ p.errand = .body (.going (.ask (.stop x.token) resume)))
  | .rouse i => ∃ p, d.parties[i]? = some p ∧ p.execution = id
  | _ => False

/-- Nothing about an execution has changed: not the record of it, nor the lock of its outcome, its stop token, or
those who deal with it. -/
structure Untouched (d d' : Dealings) (id : ExecutionId) (x : Execution) : Prop where
  execution : d'.host.execution? id = some x
  lock : d'.lock id = d.lock id
  token : d'.host.token? x.token = d.host.token? x.token
  parties : ∀ (j : Nat) q, q.execution = id → (d'.parties[j]? = some q ↔ d.parties[j]? = some q)

section

variable {i : Nat} {p : Party} {x y : Execution} {m : Move} {id : ExecutionId} {a : Act}

theorem Orderly.token_after (ho : d.Orderly) (ht : d.Turn d' i p x m) (hy : d.host.execution? id = some y)
    (hid : id ≠ p.execution) (hstop : ∀ resume, p.errand ≠ .body (.going (.ask (.stop y.token) resume))) :
    d'.host.token? y.token = d.host.token? y.token := by
  have hother : x.token ≠ y.token := fun heq => hid (ho.tokened.distinct _ _ x y ht.execution hy heq).symm
  have hself := ho.tells i p x ht.was ht.execution
  have hm := ht.moves
  rw [ht.now]
  show m.host.token? y.token = _
  generalize p.errand = e at hm hself hstop
  cases hm with
  | run hw =>
    -- it polls with the token of its own execution
    have hseat : d.host.seatToken { self := i, execution := some p.execution } = some x.token := by
      simp [Host.seatToken, ht.execution]
    refine Activity.token?_step hw (by rw [hseat]; simpa using hother) ?_
    rintro resume rfl
    exact hstop resume rfl
  | @stop r _ _ hr =>
    have htoken : r.token = x.token := hself
    exact StopRequest.token?_step hr (by rw [htoken]; exact hother.symm)
  | _ => rfl

/-- Whoever makes a move leaves alone all executions but the one that it deals with. -/
theorem Orderly.turn_untouched (ho : d.Orderly) (ht : d.Turn d' i p x m) (hy : d.host.execution? id = some y)
    (hc : ¬ (Act.move i).Concerns d id) : d.Untouched d' id y := by
  have hid : id ≠ p.execution := by
    rintro rfl
    exact hc ⟨p, ht.was, .inl rfl⟩
  have hstop (resume) : p.errand ≠ .body (.going (.ask (.stop y.token) resume)) := fun he =>
    hc ⟨p, ht.was, .inr ⟨y, resume, hy, he⟩⟩
  constructor
  case execution =>
    rw [ht.execution?, if_neg hid]
    exact hy
  case lock => rw [ht.lock, if_neg hid]
  case token => exact ho.token_after ht hy hid hstop
  case parties =>
    intro j q hq
    subst hq
    constructor
    · intro hq
      rcases ht.cases hq with ⟨-, rfl⟩ | ⟨-, q₀, hq₀, hstays, hsame⟩ | ⟨-, e, -, rfl⟩
      · exact absurd rfl hid
      · rw [hsame (hstays.execution ▸ hid)]
        exact hq₀
      · exact absurd rfl hid
    · intro hq
      have hj : j ≠ i := by
        rintro rfl
        cases ht.was.symm.trans hq
        exact hid rfl
      obtain ⟨q', hq', -, hsame⟩ := ht.others hj hq
      rw [← hsame hid]
      exact hq'

theorem at_set_iff {parties : List Party} {q r r' : Party} (hi : parties[i]? = some r) (hr : r ≠ q) (hr' : r' ≠ q)
    (j : Nat) : (parties.set i r')[j]? = some q ↔ parties[j]? = some q := by
  by_cases hj : i = j
  · subst hj
    rw [List.getElem?_set_self (List.getElem?_eq_some_iff.1 hi).1, hi, Option.some.injEq, Option.some.injEq]
    exact iff_of_false hr' hr
  · rw [List.getElem?_set_ne hj]

theorem at_append_iff {parties : List Party} {q r : Party} (hr : r ≠ q) (j : Nat) :
    (parties ++ [r])[j]? = some q ↔ parties[j]? = some q := by
  rw [List.getElem?_append]
  split
  · exact Iff.rfl
  · rename_i hlt
    rw [List.getElem?_eq_none (Nat.le_of_not_lt hlt)]
    refine iff_of_false (fun h => ?_) nofun
    obtain ⟨_, heq⟩ := List.getElem?_eq_some_iff.1 h
    rw [List.getElem_singleton] at heq
    exact hr heq

/-- Where no party makes a move, only those change who come to an execution or wake. -/
theorem parties_of_step (hs : d.step a = some d') (hn : ∀ i, a ≠ .move i) (hc : ¬ a.Concerns d id) {j : Nat} {q : Party}
    (hq : q.execution = id) : d'.parties[j]? = some q ↔ d.parties[j]? = some q := by
  have hother {k : ExecutionId} (e : Errand) (hk : k ≠ id) : (⟨k, e⟩ : Party) ≠ q := by
    rintro rfl
    exact hk hq
  cases a with
  | move i => exact absurd rfl (hn i)
  | register | elapse | surroundings =>
    cases hs
    exact Iff.rfl
  | come k r =>
    obtain ⟨x, -, hs⟩ := Option.map_eq_some_iff.1 hs
    cases hs
    exact at_append_iff (hother _ hc) j
  | rouse i =>
    simp only [step] at hs
    split at hs
    · rename_i k hi
      cases hs
      have hk : k ≠ id := fun h => hc ⟨_, hi, h⟩
      exact at_set_iff hi (hother _ hk) (hother _ hk) j
    · cases hs
  | stream i =>
    simp only [step] at hs
    split at hs
    · obtain ⟨h, -, hs⟩ := Option.map_eq_some_iff.1 hs
      cases hs
      exact Iff.rfl
    · cases hs
  | post channel event params =>
    simp only [step] at hs
    split at hs
    · cases hs
      exact Iff.rfl
    · cases hs

theorem Orderly.untouched (ho : d.Orderly) (hs : d.step a = some d') (hy : d.host.execution? id = some y)
    (hc : ¬ a.Concerns d id) : d.Untouched d' id y := by
  rcases step_cases hs with ⟨i, p, x, m, rfl, ht⟩ | ⟨hn, hr⟩
  · exact ho.turn_untouched ht hy hc
  · exact ⟨hr.kept id y hy, congrFun hr.lock id, hr.token _ (ho.tokened.there id y hy),
      fun j q hq => parties_of_step hs hn hc hq⟩

end

/-! ## One act -/

/-- What an act does to the executions. -/
structure Advances (a : Act) (d d' : Dealings) : Prop where
  next : ∀ id x, d.host.execution? id = some x → ∃ x', d'.host.execution? id = some x' ∧ x.Next x'
  new : ∀ id x', d.host.execution? id = none → d'.host.execution? id = some x' → x'.state = .created ∧ x'.outcome = {}
  others : ∀ id x, d.host.execution? id = some x → ¬ a.Concerns d id → d.Untouched d' id x

theorem Orderly.advances (ho : d.Orderly) {a : Act} (hs : d.step a = some d') : d.Advances a d' := by
  refine ⟨fun id y hy => ?_, fun id x' hn hx => ?_, fun id y hy hc => ho.untouched hs hy hc⟩
  · rcases step_cases hs with ⟨i, p, x, m, rfl, ht⟩ | ⟨-, hr⟩
    · rw [ht.execution?]
      split
      · rename_i hid
        subst hid
        cases hy.symm.trans ht.execution
        have he := ho.tells i p y ht.was ht.execution
        refine ⟨_, rfl, ht.moves.same, ht.moves.state he, fun hf => ?_⟩
        exact (ht.moves.writes he).resolve_right fun hw => hw.1 hf
      · exact ⟨y, hy, .refl y⟩
    · exact ⟨y, hr.kept id y hy, .refl y⟩
  · rcases step_cases hs with ⟨i, p, x, m, rfl, ht⟩ | ⟨-, hr⟩
    · rcases ht.older hx with ⟨rfl, -⟩ | ⟨-, hx⟩
      · exact absurd (hn.symm.trans ht.execution) nofun
      · exact absurd (hn.symm.trans hx) nofun
    · rcases hr.older id x' hx with hx | ⟨-, hnew⟩
      · exact absurd (hn.symm.trans hx) nofun
      · exact hnew

/-- Parties stay, and what they have come to they keep. -/
theorem party_after {a : Act} (hs : d.step a = some d') {i : Nat} {p : Party} (hp : d.parties[i]? = some p) :
    ∃ q, d'.parties[i]? = some q ∧ p.Endures q := by
  rcases step_cases hs with ⟨j, r, x, m, rfl, ht⟩ | ⟨-, hr⟩
  · by_cases hi : i = j
    · subst hi
      cases hp.symm.trans ht.was
      exact ⟨_, ht.self, rfl, ht.moves.isBody, fun c hc => ht.moves.ends? hc, fun h => absurd h ht.moves.not_isThrough⟩
    · obtain ⟨q, hq, hstays, -⟩ := ht.others hi hp
      exact ⟨q, hq, hstays.endures⟩
  · obtain ⟨q, hq, hstays⟩ := hr.stays i p hp
    exact ⟨q, hq, hstays.endures⟩

/-! ## All acts -/

theorem Orderly.step (ho : d.Orderly) {a : Act} (hs : d.step a = some d') : d'.Orderly := by
  rcases step_cases hs with ⟨i, p, x, m, -, ht⟩ | ⟨-, hr⟩
  · exact ho.turn ht
  · exact ho.rest hr

theorem Orderly.leads (ho : d.Orderly) (hl : d.Leads d') : d'.Orderly := by
  induction hl with
  | refl => exact ho
  | tail _ hs ih =>
    obtain ⟨a, hs⟩ := hs
    exact ih.step hs

theorem Orderly.finished_kept (ho : d.Orderly) (hl : d.Leads d') {id : ExecutionId} {x : Execution}
    (hx : d.host.execution? id = some x) (hf : x.state = .finished) : d'.host.execution? id = some x := by
  induction hl with
  | refl => exact hx
  | tail hl hs ih =>
    obtain ⟨a, hs⟩ := hs
    obtain ⟨x', hx', hnext⟩ := ((ho.leads hl).advances hs).next id x ih
    rw [hx', hnext.finished hf]

theorem party_of_leads (hl : d.Leads d') {i : Nat} {p : Party} (hp : d.parties[i]? = some p) :
    ∃ q, d'.parties[i]? = some q ∧ p.Endures q := by
  induction hl with
  | refl => exact ⟨p, hp, .refl p⟩
  | tail _ hs ih =>
    obtain ⟨q, hq, hpq⟩ := ih
    obtain ⟨a, hs⟩ := hs
    obtain ⟨r, hr, hqr⟩ := party_after hs hq
    exact ⟨r, hr, hpq.trans hqr⟩

theorem Orderly.endures (ho : d.Orderly) (hl : d.Leads d') : d.Endures d' := by
  refine ⟨fun id x => ho.finished_kept hl, fun i p => party_of_leads hl, fun i p c x hp hc hx hf => ?_⟩
  obtain ⟨q, hq, hpq⟩ := party_of_leads hl hp
  have htells := (ho.leads hl).tells i q x hq (by rw [hpq.execution]; exact hx)
  exact htells.left (hpq.ends c hc) hf

/-- What can be found at any time. -/
structure Sound (d : Dealings) : Prop where
  /-- One start at most is told that it was the one. -/
  oneStart : ∀ (i j : Nat) p q, d.parties[i]? = some p → d.parties[j]? = some q → p.errand = .started true →
    q.errand = .started true → p.execution = q.execution → i = j
  /-- One thread at most is there for the body. -/
  oneBody : ∀ (i j : Nat) p q, d.parties[i]? = some p → d.parties[j]? = some q → p.errand.isBody → q.errand.isBody →
    p.execution = q.execution → i = j
  /-- Before the end nothing has been left, but by one who is just ending the execution, under the lock. -/
  hidden : ∀ id x, d.host.execution? id = some x → x.state ≠ .finished → x.outcome = {} ∨
    ∃ (i : Nat) (c : Closer) (stage : Closing), d.parties[i]? = some ⟨id, .close c stage⟩ ∧ d.lock id = some i
  exclusive : ∀ id x, d.host.execution? id = some x → x.outcome.value = none ∨ x.outcome.failure = none
  /-- A reader has seen nothing where the execution had not finished, and what it has left where it had. -/
  read : ∀ (i : Nat) id part seen state x, d.parties[i]? = some ⟨id, .hasRead part seen state⟩ →
    d.host.execution? id = some x → (state ≠ .finished → seen = {}) ∧
      (state = .finished → x.state = .finished ∧ seen = part.of x.outcome)
  joined : ∀ (i : Nat) id x, d.parties[i]? = some ⟨id, .joined⟩ → d.host.execution? id = some x → x.state = .finished
  /-- Somebody has ended what has finished. -/
  ended : ∀ id x, d.host.execution? id = some x → x.state = .finished →
    ∃ (i : Nat) (p : Party) (c : Closer), d.parties[i]? = some p ∧ p.execution = id ∧ p.errand.ends? = some c ∧
      c.Leaves x.outcome

theorem Orderly.sound (ho : d.Orderly) : d.Sound := by
  constructor
  case oneStart => exact ho.once
  case oneBody => exact fun i j p q hp hq hpb hqb => ho.one i j p q hp hq hpb.isCharged hqb.isCharged
  case hidden =>
    intro id x hx hs
    by_cases hc : x.state = .created
    · exact .inl (ho.blank id x hx hc)
    · obtain ⟨i, ⟨_, e⟩, hp, rfl, hcharged⟩ := ho.manned id x hx hc
      by_cases hh : e.holds
      · obtain ⟨c, stage, rfl⟩ := Errand.closing_of_holds hcharged hh
        exact .inr ⟨i, c, stage, hp, ho.holder i _ hp hh⟩
      · exact .inl ((ho.tells i _ x hp hx).unwritten hcharged hh hs)
  case exclusive =>
    intro id x hx
    by_cases hc : x.state = .created
    · rw [ho.blank id x hx hc]
      exact .inl rfl
    · obtain ⟨i, p, hp, rfl, hcharged⟩ := ho.manned id x hx hc
      exact (ho.tells i p x hp hx).exclusive hcharged
  case read => exact fun i id part seen state x hp hx => ho.tells i _ x hp hx
  case joined => exact fun i id x hp hx => ho.tells i _ x hp hx
  case ended =>
    intro id x hx hs
    obtain ⟨i, p, hp, rfl, hcharged⟩ := ho.manned id x hx (by rw [hs]; decide)
    have htells := ho.tells i p x hp hx
    obtain ⟨c, hc⟩ := htells.ended hcharged hs
    exact ⟨i, p, c, hp, rfl, hc, htells.left hc hs⟩

/-- However many callers start executions, ask them to stop, wait for them and read what they left, in whatever
order they and the bodies make their moves: at any time executions are as `Sound` says, whatever happens next does
no more to them than `Advances` says, and everything later finds them as `Endures` says. -/
theorem lives_once (hf : d0.Fresh) (hl : d0.Leads d) :
    d.Sound ∧ (∀ a d', d.step a = some d' → d.Advances a d') ∧ ∀ d', d.Leads d' → d.Endures d' := by
  have ho := (orderly_fresh hf).leads hl
  exact ⟨ho.sound, fun _ _ => ho.advances, fun _ => ho.endures⟩

/-! ## A run -/

/-- A host that nobody has used yet. -/
def unused : Dealings where
  host := Host.plain

/-- Two callers start an execution, one waits for its end and one means to read the value; the body returns. -/
def opening : List Act :=
  [.register Host.job fun _ _ _ => .done (.value (.bool true)), .come 0 .start, .come 0 .start, .come 0 .join,
    .come 0 (.read .value), .move 0, .move 1, .move 0, .move 2, .move 2, .move 4]

/-- The thread ends the execution, and the two who are left find the end. -/
def closing : List Act := List.replicate 7 (.move 4) ++ List.replicate 3 (.move 2) ++ List.replicate 3 (.move 3)

def returned : Dealings := (opening.foldlM step unused).getD unused

def settled : Dealings := (closing.foldlM step returned).getD returned

theorem returned_and_read : unused.Leads returned ∧ returned.Leads settled ∧
    returned.parties[4]? = some ⟨0, .body (.done (.value (.bool true)))⟩ ∧
    settled.parties[2]? = some ⟨0, .joined⟩ ∧
    settled.parties[3]? = some ⟨0, .hasRead .value { value := some (.bool true) } .finished⟩ ∧
    ∃ x, settled.host.execution? 0 = some x ∧ x.state = .finished ∧
      x.outcome = { value := some (.bool true), failure := none } := by
  have h1 : opening.foldlM step unused = some returned := rfl
  have h2 : closing.foldlM step returned = some settled := rfl
  have hl1 := leads_of_played h1
  have hl2 := leads_of_played h2
  have hf : unused.Fresh := ⟨⟨rfl, rfl, rfl⟩, fun _ => rfl, rfl⟩
  have hbody : returned.parties[4]? = some ⟨0, .body (.done (.value (.bool true)))⟩ := rfl
  have hjoined : settled.parties[2]? = some ⟨0, .joined⟩ := rfl
  obtain ⟨x, hx⟩ : ∃ x, settled.host.execution? 0 = some x := ⟨_, rfl⟩
  have hs : x.state = .finished := (lives_once hf (hl1.trans hl2)).1.joined 2 0 x hjoined hx
  have hleft := ((lives_once hf hl1).2.2 settled hl2).left 4 _ _ x hbody rfl hx hs
  refine ⟨hl1, hl2, hbody, hjoined, rfl, x, hx, hs, ?_⟩
  generalize x.outcome = o at hleft
  cases hleft
  rfl

end Dealings

end Scripting
