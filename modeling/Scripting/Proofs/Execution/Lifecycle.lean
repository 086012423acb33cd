/-
The life of an execution. Once a start has claimed it, there is one party at every moment that is in charge of it:
the start until it has asked for a thread, then the thread, or the start again where there was none. How far that
party is tells the state and the outcome exactly (`Errand.Tells`); nobody else writes either, and from the first
write to the last it holds the lock. So whoever reads under the lock finds nothing before the end and all of it
afterwards, and whoever waited for the end has seen it.
-/
import Scripting.Proofs.Execution.Dealings
import Scripting.Proofs.Registry.Sequence

namespace Scripting

/-! ## Those in charge -/

namespace Errand

/-- In charge of an execution that is claimed. -/
def isCharged : Errand → Prop
  | .spawn | .body _ | .close .. | .closed _ => True
  | _ => False

/-- On the thread of the execution. -/
def isBody : Errand → Prop
  | .body _ | .close (.body _) _ | .closed (.body _) => True
  | _ => False

/-- Between taking the lock of the outcome and letting it go. -/
def holds : Errand → Prop
  | .close _ .lock => False
  | .close .. | .joinLook | .joinLeave | .readLook _ | .readLeave .. => True
  | _ => False

/-- What an errand tells of the execution that it is about. -/
def Tells (x : Execution) : Errand → Prop
  | .spawn | .body _ | .close _ .lock | .close _ .value => x.state = .running ∧ x.outcome = {}
  | .close c .failure => x.state = .running ∧ x.outcome = { value := c.outcome.value }
  | .close c .state => x.state = .running ∧ x.outcome = c.outcome
  | .close c .notify | .close c .unlock | .closed c => x.state = .finished ∧ x.outcome = c.outcome
  | .stop r => r.token = x.token
  | .joinLeave | .joined => x.state = .finished
  | .readLeave part seen state | .hasRead part seen state =>
    (state ≠ .finished → seen = {}) ∧ (state = .finished → x.state = .finished ∧ seen = part.of x.outcome)
  | _ => True

variable {x x' : Execution} {e : Errand}

theorem isBody.isCharged (h : e.isBody) : e.isCharged := by
  unfold isBody at h
  split at h
  · trivial
  · trivial
  · trivial
  · exact h.elim

theorem Tells.claimed (h : e.Tells x) (hc : e.isCharged) : x.state ≠ .created := by
  intro hs
  cases e with
  | spawn | body | closed => exact absurd (hs.symm.trans h.1) nofun
  | close c stage => cases stage <;> exact absurd (hs.symm.trans h.1) nofun
  | _ => exact hc.elim

/-- Who is in charge and does not hold the lock has written nothing, or all. -/
theorem Tells.unwritten (h : e.Tells x) (hc : e.isCharged) (hl : ¬ e.holds) (hs : x.state ≠ .finished) :
    x.outcome = {} := by
  cases e with
  | spawn | body => exact h.2
  | close c stage =>
    cases stage with
    | lock => exact h.2
    | _ => exact absurd trivial hl
  | closed => exact absurd h.1 hs
  | _ => exact hc.elim

/-- What others do to an execution that has not finished is nothing to those who are not in charge. -/
theorem Tells.kept (h : e.Tells x) (hc : ¬ e.isCharged) (hs : x.state ≠ .finished) (ht : x'.token = x.token) :
    e.Tells x' := by
  cases e with
  | spawn | body | close | closed => exact absurd trivial hc
  | stop r => exact Eq.trans h ht.symm
  | joinLeave | joined => exact absurd h hs
  | readLeave part seen state | hasRead part seen state => exact ⟨h.1, fun hf => absurd (h.2 hf).1 hs⟩
  | _ => trivial

/-! ## One move -/

section

variable {h : Host} {self : Nat} {id : ExecutionId} {l : Option Nat} {m : Move}

theorem Moves.quiet (hm : Moves h self id x l e m) : h.Quiet m.host := by
  cases hm with
  | run hw => exact Activity.quiet_step hw
  | stop hr => exact StopRequest.quiet_step hr
  | «return» => exact Host.quiet_logged h _
  | _ => exact Host.Quiet.refl h

/-- A move writes nothing but the state and the outcome. -/
theorem Moves.same (hm : Moves h self id x l e m) :
    m.execution = { x with state := m.execution.state, outcome := m.execution.outcome } := by
  cases hm <;> rfl

/-- The state goes on by one at most. -/
theorem Moves.state (hm : Moves h self id x l e m) (he : e.Tells x) :
    m.execution.state = x.state ∨ (x.state = .created ∧ m.execution.state = .running) ∨
      (x.state = .running ∧ m.execution.state = .finished) := by
  cases hm with
  | claim hc => exact .inr (.inl ⟨hc, rfl⟩)
  | closeState => exact .inr (.inr ⟨he.1, rfl⟩)
  | _ => exact .inl rfl

/-- A party that changes an execution is in charge of it then, and the execution had not finished. -/
theorem Moves.writes (hm : Moves h self id x l e m) (he : e.Tells x) :
    m.execution = x ∨ (x.state ≠ .finished ∧ m.errand.isCharged ∧ (e.isCharged ∨ x.state = .created)) := by
  cases hm with
  | claim hc => exact .inr ⟨by rw [hc]; decide, trivial, .inr hc⟩
  | closeValue | closeFailure | closeState => exact .inr ⟨by rw [he.1]; decide, trivial, .inl trivial⟩
  | _ => exact .inl rfl

/-- Charge of an execution is taken by a claim and handed to the thread that comes into being; otherwise it stays
where it is. -/
theorem Moves.charge (hm : Moves h self id x l e m) :
    (m.comes = none ∧ (m.errand.isCharged ↔ e.isCharged) ∧ (m.errand.isBody ↔ e.isBody) ∧ m.errand ≠ .started true) ∨
    (x.state = .created ∧ m.comes = none ∧ m.errand = .spawn ∧ m.execution.state = .running ∧ ¬ e.isCharged) ∨
    (e = .spawn ∧ m.comes = some (.body (.going x.body)) ∧ m.errand = .started true ∧ m.execution = x) := by
  cases hm with
  | claim hc => exact .inr (.inl ⟨hc, rfl, rfl, rfl, fun h => h⟩)
  | spawn => exact .inr (.inr ⟨rfl, rfl, rfl, rfl⟩)
  | @closeLock c | @closeValue c | @closeFailure c | @closeState c | @closeNotify c | @closeUnlock c =>
    cases c <;> exact .inl ⟨rfl, Iff.rfl, Iff.rfl, nofun⟩
  | _ => exact .inl ⟨rfl, Iff.rfl, Iff.rfl, nofun⟩

/-- Who holds the lock afterwards holds it for itself, and it was free or its own. -/
theorem Moves.holds (hm : Moves h self id x l e m) (hl : e.holds → l = some self) (hh : m.errand.holds) :
    m.lock = some self := by
  cases hm with
  | closeLock | joinLock | readLock => rfl
  | closeValue | closeFailure | closeState | closeNotify | joinSeen | readLook => exact hl trivial
  | _ => exact hh.elim

theorem Moves.lock (hm : Moves h self id x l e m) : m.lock = l ∨ l = none ∨ e.holds := by
  cases hm with
  | closeLock hl | joinLock hl | readLock hl => exact .inr (.inl hl)
  | closeUnlock | joinPark | joinUnlock | readUnlock => exact .inr (.inr trivial)
  | _ => exact .inl rfl

/-- What an errand tells stays true as it goes on. -/
theorem Moves.tells (hm : Moves h self id x l e m) (he : e.Tells x) (hb : x.state = .created → x.outcome = {})
    (hr : e.holds → ¬ e.isCharged → x.state ≠ .finished → x.outcome = {}) : m.errand.Tells m.execution := by
  cases hm with
  | claim hc => exact ⟨rfl, hb hc⟩
  | closeValue => exact ⟨he.1, by rw [he.2]⟩
  | closeFailure => exact ⟨he.1, by rw [he.2]⟩
  | closeState => exact ⟨rfl, he.2⟩
  | stop hs => exact ((congrArg StopRequest.token (StopRequest.moves_of_step hs).2).trans he :)
  | joinSeen hs => exact hs
  | @readLook part =>
    refine ⟨fun hn => ?_, fun hf => ⟨hf, rfl⟩⟩
    rw [hr trivial (fun h => h) hn]
    cases part <;> rfl
  | _ => first | exact he | trivial

end

end Errand

namespace Dealings

/-! ## The invariant -/

structure Orderly (d : Dealings) : Prop where
  there : ∀ (i : Nat) p, d.parties[i]? = some p → ∃ x, d.host.execution? p.execution = some x
  tells : ∀ (i : Nat) p x, d.parties[i]? = some p → d.host.execution? p.execution = some x → p.errand.Tells x
  /-- One party at most is in charge of an execution. -/
  one : ∀ (i j : Nat) p q, d.parties[i]? = some p → d.parties[j]? = some q → p.errand.isCharged → q.errand.isCharged →
    p.execution = q.execution → i = j
  /-- One is, once it is claimed. -/
  manned : ∀ id x, d.host.execution? id = some x → x.state ≠ .created →
    ∃ (i : Nat) (p : Party), d.parties[i]? = some p ∧ p.execution = id ∧ p.errand.isCharged
  blank : ∀ id x, d.host.execution? id = some x → x.state = .created → x.outcome = {}
  holder : ∀ (i : Nat) p, d.parties[i]? = some p → p.errand.holds → d.lock p.execution = some i
  /-- Behind a start that was the one stands the thread that it brought about. -/
  thread : ∀ (i : Nat) p, d.parties[i]? = some p → p.errand = .started true →
    ∃ (j : Nat) (q : Party), d.parties[j]? = some q ∧ q.execution = p.execution ∧ q.errand.isBody
  once : ∀ (i j : Nat) p q, d.parties[i]? = some p → d.parties[j]? = some q → p.errand = .started true →
    q.errand = .started true → p.execution = q.execution → i = j
  tokened : d.host.Tokened

variable {d d' : Dealings}

theorem orderly_fresh (hf : d.Fresh) : d.Orderly := by
  have hnobody (i : Nat) (p : Party) : d.parties[i]? ≠ some p := by
    rw [hf.parties]
    exact nofun
  have hnone (id : ExecutionId) (x : Execution) : d.host.execution? id ≠ some x := by
    unfold Host.execution?
    rw [hf.host.executions]
    exact nofun
  constructor
  case tokened => exact (Host.orderly_fresh hf.host).tokened
  case manned | blank =>
    intro id x hx
    exact absurd hx (hnone id x)
  case one | once =>
    intro i _ p _ hp
    exact absurd hp (hnobody i p)
  case tells =>
    intro i p _ hp
    exact absurd hp (hnobody i p)
  case there | holder | thread =>
    intro i p hp
    exact absurd hp (hnobody i p)

/-- A party later on, unless it has made a move: it may have been woken. -/
structure Stays (q q' : Party) : Prop where
  execution : q'.execution = q.execution
  errand : q'.errand = q.errand ∨ q.errand = .joinParked ∧ q'.errand = .join

namespace Stays

variable {q q' : Party}

theorem refl (q : Party) : Stays q q := ⟨rfl, .inl rfl⟩

theorem woken (id : ExecutionId) (q : Party) : Stays q (Dealings.woken id q) := by
  unfold Dealings.woken
  split
  · rename_i hq
    split
    · exact ⟨rfl, .inr ⟨hq, rfl⟩⟩
    · exact refl q
  · exact refl q

/-- What does not tell one who waits from one who was woken holds before as after. -/
theorem same (h : Stays q q') {P : Errand → Prop} (hP : P .join ↔ P .joinParked) : P q'.errand ↔ P q.errand := by
  rcases h.errand with h | ⟨h, h'⟩
  · rw [h]
  · rw [h, h']
    exact hP

theorem isCharged (h : Stays q q') : q'.errand.isCharged ↔ q.errand.isCharged := h.same Iff.rfl

theorem isBody (h : Stays q q') : q'.errand.isBody ↔ q.errand.isBody := h.same Iff.rfl

theorem holds (h : Stays q q') : q'.errand.holds ↔ q.errand.holds := h.same Iff.rfl

theorem started (h : Stays q q') : q'.errand = .started true ↔ q.errand = .started true :=
  h.same (P := (· = .started true)) (iff_of_false nofun nofun)

theorem tells (h : Stays q q') {x : Execution} (ht : q.errand.Tells x) : q'.errand.Tells x := by
  rcases h.errand with h | ⟨-, h'⟩
  · rw [h]
    exact ht
  · rw [h']
    trivial

end Stays

/-! ## The move of a party -/

/-- A party makes a move. -/
structure Turn (d d' : Dealings) (i : Nat) (p : Party) (x : Execution) (m : Move) : Prop where
  was : d.parties[i]? = some p
  execution : d.host.execution? p.execution = some x
  moves : p.errand.Moves d.host i p.execution x (d.lock p.execution) m
  now : d' = d.after i p m

section

variable {i : Nat} {p : Party} {x : Execution} {m : Move}

theorem turn_of_step (hs : d.step (.move i) = some d') : ∃ p x m, d.Turn d' i p x m := by
  simp only [step, Option.bind_eq_bind, Option.bind_eq_some_iff] at hs
  obtain ⟨p, hp, x, hx, m, hm, hs⟩ := hs
  cases hs
  exact ⟨p, x, m, hp, hx, Errand.moves_of_move hm, rfl⟩

theorem Turn.execution? (ht : d.Turn d' i p x m) (j : ExecutionId) :
    d'.host.execution? j = if j = p.execution then some m.execution else d.host.execution? j := by
  have heq (j : ExecutionId) : m.host.execution? j = d.host.execution? j := by
    unfold Host.execution?
    rw [ht.moves.quiet.executions]
  rw [ht.now, after, Host.execution?_setExecution ((heq _).trans ht.execution), heq]

theorem Turn.lock (ht : d.Turn d' i p x m) (j : ExecutionId) :
    d'.lock j = if j = p.execution then m.lock else d.lock j := by
  rw [ht.now]
  exact Function.update_apply _ _ _ _

theorem Turn.self (ht : d.Turn d' i p x m) : d'.parties[i]? = some ⟨p.execution, m.errand⟩ := by
  rw [ht.now]
  exact after_self ht.was

/-- What there is of the parties that were there. -/
theorem Turn.before (ht : d.Turn d' i p x m) : ∃ rest : List Party, rest.length = d.parties.length ∧
    d'.parties = rest.set i ⟨p.execution, m.errand⟩ ++ m.comes.toList.map (⟨p.execution, ·⟩) ∧
    ∀ (j : Nat) q', rest[j]? = some q' →
      ∃ q, d.parties[j]? = some q ∧ Stays q q' ∧ (q.execution ≠ p.execution → q' = q) := by
  rw [ht.now]
  refine ⟨_, ?_, rfl, ?_⟩
  · split
    · exact List.length_map _
    · rfl
  · intro j q' hq
    split at hq
    · rw [List.getElem?_map, Option.map_eq_some_iff] at hq
      obtain ⟨q, hq, rfl⟩ := hq
      refine ⟨q, hq, .woken _ q, fun hne => ?_⟩
      unfold woken
      split
      · rw [if_neg hne]
      · rfl
    · exact ⟨q', hq, .refl q', fun _ => rfl⟩

theorem Turn.others (ht : d.Turn d' i p x m) {j : Nat} {q : Party} (hj : j ≠ i) (hq : d.parties[j]? = some q) :
    ∃ q', d'.parties[j]? = some q' ∧ Stays q q' ∧ (q.execution ≠ p.execution → q' = q) := by
  obtain ⟨rest, hlen, hnow, hback⟩ := ht.before
  have hlt : j < rest.length := by
    rw [hlen]
    exact (List.getElem?_eq_some_iff.1 hq).1
  have hj' : rest[j]? = some rest[j] := List.getElem?_eq_getElem hlt
  obtain ⟨q₀, hq₀, hstays⟩ := hback j _ hj'
  cases hq.symm.trans hq₀
  refine ⟨_, ?_, hstays⟩
  rw [hnow, List.getElem?_append_left (by simpa using hlt), List.getElem?_set_ne (Ne.symm hj), hj']

theorem Turn.comes (ht : d.Turn d' i p x m) {e : Errand} (he : m.comes = some e) :
    d'.parties[d.parties.length]? = some ⟨p.execution, e⟩ := by
  obtain ⟨rest, hlen, hnow, -⟩ := ht.before
  rw [hnow, he, List.getElem?_append_right (by simp [hlen])]
  simp [hlen]

theorem Turn.cases (ht : d.Turn d' i p x m) {j : Nat} {q' : Party} (hq : d'.parties[j]? = some q') :
    (j = i ∧ q' = ⟨p.execution, m.errand⟩) ∨
    (j ≠ i ∧ ∃ q, d.parties[j]? = some q ∧ Stays q q' ∧ (q.execution ≠ p.execution → q' = q)) ∨
    (j = d.parties.length ∧ ∃ e, m.comes = some e ∧ q' = ⟨p.execution, e⟩) := by
  obtain ⟨rest, hlen, hnow, hback⟩ := ht.before
  by_cases hj : j = i
  · subst hj
    exact .inl ⟨rfl, Option.some.inj (hq.symm.trans ht.self)⟩
  · rw [hnow] at hq
    by_cases hlt : j < rest.length
    · rw [List.getElem?_append_left (by simpa using hlt), List.getElem?_set_ne (Ne.symm hj)] at hq
      exact .inr (.inl ⟨hj, hback j q' hq⟩)
    · rw [List.getElem?_append_right (by simpa using Nat.le_of_not_lt hlt), List.length_set] at hq
      cases hc : m.comes with
      | none =>
        rw [hc] at hq
        cases hq
      | some e =>
        rw [hc, Option.toList_some, List.map_singleton] at hq
        obtain ⟨hzero, rfl⟩ := List.getElem?_eq_some_iff.1 hq
        refine .inr (.inr ⟨?_, e, rfl, by simp⟩)
        rw [List.length_singleton] at hzero
        omega

theorem Turn.older (ht : d.Turn d' i p x m) {id : ExecutionId} {x' : Execution} (hx : d'.host.execution? id = some x') :
    (id = p.execution ∧ x' = m.execution) ∨ (id ≠ p.execution ∧ d.host.execution? id = some x') := by
  rw [ht.execution?] at hx
  split at hx
  · rename_i hid
    exact .inl ⟨hid, (Option.some.inj hx).symm⟩
  · rename_i hid
    exact .inr ⟨hid, hx⟩

theorem Turn.token (ht : d.Turn d' i p x m) {id : ExecutionId} {x' : Execution} (hx : d'.host.execution? id = some x') :
    ∃ x₀, d.host.execution? id = some x₀ ∧ x'.token = x₀.token := by
  rcases ht.older hx with ⟨rfl, rfl⟩ | ⟨-, hx⟩
  · exact ⟨x, ht.execution, by rw [ht.moves.same]⟩
  · exact ⟨x', hx, rfl⟩

theorem Turn.tokens (ht : d.Turn d' i p x m) : d'.host.tokens.length = d.host.tokens.length := by
  rw [ht.now]
  exact ht.moves.quiet.tokens

/-- Whoever reads while somebody else may be in charge finds nothing written before the end. -/
theorem Orderly.unwritten (ho : d.Orderly) (hp : d.parties[i]? = some p) (hx : d.host.execution? p.execution = some x)
    (hh : p.errand.holds) (hc : ¬ p.errand.isCharged) (hs : x.state ≠ .finished) : x.outcome = {} := by
  by_cases hcreated : x.state = .created
  · exact ho.blank _ x hx hcreated
  · obtain ⟨j, q, hq, heq, hqc⟩ := ho.manned _ x hx hcreated
    have hfree : ¬ q.errand.holds := by
      intro hqh
      have hlock := ho.holder j q hq hqh
      rw [heq, ho.holder i p hp hh, Option.some.injEq] at hlock
      subst hlock
      cases hp.symm.trans hq
      exact hc hqc
    exact (ho.tells j q x hq (by rw [heq]; exact hx)).unwritten hqc hfree hs

theorem Orderly.tells_after (ho : d.Orderly) (ht : d.Turn d' i p x m) : m.errand.Tells m.execution :=
  ht.moves.tells (ho.tells i p x ht.was ht.execution) (ho.blank _ x ht.execution)
    fun hh hc hs => ho.unwritten ht.was ht.execution hh hc hs

/-- Only a thread comes into being by a turn, and the start that brings it about is through. -/
theorem Turn.new (ht : d.Turn d' i p x m) {e : Errand} (he : m.comes = some e) :
    p.errand = .spawn ∧ e = .body (.going x.body) ∧ m.errand = .started true ∧ m.execution = x := by
  rcases ht.moves.charge with ⟨hnone, -⟩ | ⟨-, hnone, -⟩ | ⟨hspawn, hcomes, hstarted, hsame⟩
  · rw [hnone] at he
    cases he
  · rw [hnone] at he
    cases he
  · rw [hcomes] at he
    cases he
    exact ⟨hspawn, rfl, hstarted, hsame⟩

/-- Where who is in charge behind a turn has it from. -/
theorem Turn.charged_before (ht : d.Turn d' i p x m) {j : Nat} {q' : Party}
    (hq : d'.parties[j]? = some q') (hc : q'.errand.isCharged) :
    (∃ q, d.parties[j]? = some q ∧ q.errand.isCharged ∧ q.execution = q'.execution) ∨
    (j = d.parties.length ∧ q'.execution = p.execution ∧ p.errand.isCharged ∧ ¬ m.errand.isCharged) ∨
    (j = i ∧ q'.execution = p.execution ∧ x.state = .created) := by
  rcases ht.cases hq with ⟨rfl, rfl⟩ | ⟨-, q, hq₀, hstays, -⟩ | ⟨hj, e, he, rfl⟩
  · rcases ht.moves.charge with ⟨-, hsame, -, -⟩ | ⟨hcreated, -⟩ | ⟨-, -, hstarted, -⟩
    · exact .inl ⟨p, ht.was, hsame.1 hc, rfl⟩
    · exact .inr (.inr ⟨rfl, rfl, hcreated⟩)
    · rw [hstarted] at hc
      exact hc.elim
  · exact .inl ⟨q, hq₀, hstays.isCharged.1 hc, hstays.execution.symm⟩
  · obtain ⟨hspawn, -, hstarted, -⟩ := ht.new he
    refine .inr (.inl ⟨hj, rfl, ?_, ?_⟩)
    · rw [hspawn]
      trivial
    · rw [hstarted]
      exact fun h => h

theorem Orderly.one_after (ho : d.Orderly) (ht : d.Turn d' i p x m) {j k : Nat} {q r : Party}
    (hq : d'.parties[j]? = some q) (hr : d'.parties[k]? = some r) (hqc : q.errand.isCharged) (hrc : r.errand.isCharged)
    (he : q.execution = r.execution) : j = k := by
  -- nobody was in charge of an execution that was only created
  have hnobody {j : Nat} {q : Party} (hq : d.parties[j]? = some q) (hc : q.errand.isCharged)
      (he : q.execution = p.execution) : x.state ≠ .created :=
    (ho.tells j q x hq (by rw [he]; exact ht.execution)).claimed hc
  -- nobody but the party whose turn it was hands charge on
  have hhanded {j : Nat} {q q₀ : Party} (hq : d'.parties[j]? = some q) (hqc : q.errand.isCharged)
      (hq₀ : d.parties[j]? = some q₀) (hc : q₀.errand.isCharged) (he : q₀.execution = p.execution)
      (hp : p.errand.isCharged) : m.errand.isCharged := by
    obtain rfl : j = i := ho.one j i q₀ p hq₀ ht.was hc hp he
    cases hq.symm.trans ht.self
    exact hqc
  rcases ht.charged_before hq hqc with ⟨q₀, hq₀, hc, heq⟩ | ⟨hj, heq, hp, hn⟩ | ⟨hj, heq, hcreated⟩ <;>
    rcases ht.charged_before hr hrc with ⟨r₀, hr₀, hc', her⟩ | ⟨hk, her, hp', hn'⟩ | ⟨hk, her, hcreated'⟩
  · exact ho.one j k q₀ r₀ hq₀ hr₀ hc hc' (heq.trans (he.trans her.symm))
  · exact absurd (hhanded hq hqc hq₀ hc (heq.trans (he.trans her)) hp') hn'
  · exact absurd hcreated' (hnobody hq₀ hc (heq.trans (he.trans her)))
  · exact absurd (hhanded hr hrc hr₀ hc' (her.trans (he.symm.trans heq)) hp) hn
  · exact hj.trans hk.symm
  · exact absurd hcreated' (hnobody ht.was hp rfl)
  · exact absurd hcreated (hnobody hr₀ hc' (her.trans (he.symm.trans heq)))
  · exact absurd hcreated (hnobody ht.was hp' rfl)
  · exact hj.trans hk.symm

theorem Orderly.manned_after (ho : d.Orderly) (ht : d.Turn d' i p x m) {id : ExecutionId} {x' : Execution}
    (hx : d'.host.execution? id = some x') (hs : x'.state ≠ .created) :
    ∃ (j : Nat) (q : Party), d'.parties[j]? = some q ∧ q.execution = id ∧ q.errand.isCharged := by
  -- who was in charge and had no turn still is
  have hold {j : Nat} {q : Party} (hj : j ≠ i) (hq : d.parties[j]? = some q) (he : q.execution = id)
      (hc : q.errand.isCharged) : ∃ (j : Nat) (q : Party), d'.parties[j]? = some q ∧ q.execution = id ∧ q.errand.isCharged := by
    obtain ⟨q', hq', hstays, -⟩ := ht.others hj hq
    exact ⟨j, q', hq', hstays.execution.trans he, hstays.isCharged.2 hc⟩
  rcases ht.older hx with ⟨rfl, rfl⟩ | ⟨hid, hx⟩
  · rcases ht.moves.charge with ⟨-, hsame, -, -⟩ | ⟨-, -, hspawn, -, -⟩ | ⟨-, hcomes, -, -⟩
    · by_cases hc : p.errand.isCharged
      · exact ⟨i, _, ht.self, rfl, hsame.2 hc⟩
      · rcases ht.moves.writes (ho.tells i p x ht.was ht.execution) with hsame' | ⟨-, hc', -⟩
        · rw [hsame'] at hs
          obtain ⟨j, q, hq, he, hqc⟩ := ho.manned _ x ht.execution hs
          refine hold ?_ hq he hqc
          rintro rfl
          cases ht.was.symm.trans hq
          exact hc hqc
        · exact absurd (hsame.1 hc') hc
    · exact ⟨i, _, ht.self, rfl, by rw [hspawn]; trivial⟩
    · exact ⟨_, _, ht.comes hcomes, rfl, trivial⟩
  · obtain ⟨j, q, hq, he, hc⟩ := ho.manned id x' hx hs
    refine hold ?_ hq he hc
    rintro rfl
    cases ht.was.symm.trans hq
    exact hid he.symm

theorem Orderly.holder_after (ho : d.Orderly) (ht : d.Turn d' i p x m) {j : Nat} {q' : Party}
    (hq : d'.parties[j]? = some q') (hh : q'.errand.holds) : d'.lock q'.execution = some j := by
  rw [ht.lock]
  rcases ht.cases hq with ⟨rfl, rfl⟩ | ⟨hj, q, hq₀, hstays, -⟩ | ⟨-, e, he, rfl⟩
  · rw [if_pos rfl]
    exact ht.moves.holds (ho.holder j p ht.was) hh
  · have hlock := ho.holder j q hq₀ (hstays.holds.1 hh)
    rw [← hstays.execution] at hlock
    split
    · -- the lock is not free, and not of the party whose turn it was
      rename_i heq
      rw [heq] at hlock
      rcases ht.moves.lock with hl | hl | hl
      · rw [hl, hlock]
      · rw [hl] at hlock
        cases hlock
      · rw [ho.holder i p ht.was hl, Option.some.injEq] at hlock
        exact absurd hlock.symm hj
    · exact hlock
  · obtain ⟨-, rfl, -⟩ := ht.new he
    exact hh.elim

theorem Orderly.tells_all_after (ho : d.Orderly) (ht : d.Turn d' i p x m) {j : Nat} {q' : Party} {x' : Execution}
    (hq : d'.parties[j]? = some q') (hx : d'.host.execution? q'.execution = some x') : q'.errand.Tells x' := by
  have he := ho.tells i p x ht.was ht.execution
  rcases ht.cases hq with ⟨rfl, rfl⟩ | ⟨hj, q, hq₀, hstays, -⟩ | ⟨-, e, hcomes, rfl⟩
  · rw [ht.execution?, if_pos rfl, Option.some.injEq] at hx
    subst hx
    exact ho.tells_after ht
  · refine hstays.tells ?_
    rw [hstays.execution] at hx
    rcases ht.older hx with ⟨heq, rfl⟩ | ⟨-, hx⟩
    · have hqx := ho.tells j q x hq₀ (by rw [heq]; exact ht.execution)
      rcases ht.moves.writes he with hsame | ⟨hunfinished, -, hmover⟩
      · rw [hsame]
        exact hqx
      · -- who writes is in charge, so nobody else is
        refine hqx.kept (fun hc => ?_) hunfinished (by rw [ht.moves.same])
        rcases hmover with hp | hcreated
        · exact hj (ho.one j i q p hq₀ ht.was hc hp heq)
        · exact hqx.claimed hc hcreated
    · exact ho.tells j q x' hq₀ hx
  · obtain ⟨hspawn, rfl, -, hsame⟩ := ht.new hcomes
    rw [ht.execution?, if_pos rfl, hsame, Option.some.injEq] at hx
    subst hx
    rw [hspawn] at he
    exact he

theorem Orderly.thread_after (ho : d.Orderly) (ht : d.Turn d' i p x m) {j : Nat} {q' : Party}
    (hq : d'.parties[j]? = some q') (hs : q'.errand = .started true) :
    ∃ (k : Nat) (r : Party), d'.parties[k]? = some r ∧ r.execution = q'.execution ∧ r.errand.isBody := by
  rcases ht.cases hq with ⟨rfl, rfl⟩ | ⟨-, q, hq₀, hstays, -⟩ | ⟨-, e, hcomes, rfl⟩
  · rcases ht.moves.charge with ⟨-, -, -, hne⟩ | ⟨-, -, hspawn, -⟩ | ⟨-, hcomes, -, -⟩
    · exact absurd hs hne
    · rw [show m.errand = .spawn from hspawn] at hs
      cases hs
    · exact ⟨_, _, ht.comes hcomes, rfl, trivial⟩
  · obtain ⟨k, r, hr, her, hbody⟩ := ho.thread j q hq₀ (hstays.started.1 hs)
    rw [hstays.execution]
    by_cases hk : k = i
    · -- the thread makes the move, and goes on being one
      subst hk
      cases ht.was.symm.trans hr
      rcases ht.moves.charge with ⟨-, -, hsame, -⟩ | ⟨-, -, -, -, hn⟩ | ⟨hspawn, -⟩
      · exact ⟨k, _, ht.self, her, hsame.2 hbody⟩
      · exact absurd hbody.isCharged hn
      · rw [hspawn] at hbody
        exact hbody.elim
    · obtain ⟨r', hr', hstays', -⟩ := ht.others hk hr
      exact ⟨k, r', hr', hstays'.execution.trans her, hstays'.isBody.2 hbody⟩
  · obtain ⟨-, rfl, -⟩ := ht.new hcomes
    cases hs

theorem Orderly.once_after (ho : d.Orderly) (ht : d.Turn d' i p x m) {j k : Nat} {q r : Party}
    (hq : d'.parties[j]? = some q) (hr : d'.parties[k]? = some r) (hqs : q.errand = .started true)
    (hrs : r.errand = .started true) (he : q.execution = r.execution) : j = k := by
  -- before a start is through as the one, no other of the same execution is
  have hfirst {k : Nat} {r : Party} (hr : d.parties[k]? = some r) (hrs : r.errand = .started true)
      (he : r.execution = p.execution) : m.errand ≠ .started true := by
    intro hm
    obtain ⟨n, b, hb, heb, hbody⟩ := ho.thread k r hr hrs
    rcases ht.moves.charge with ⟨-, -, -, hne⟩ | ⟨-, -, hspawn, -⟩ | ⟨hspawn, -⟩
    · exact hne hm
    · rw [hspawn] at hm
      cases hm
    · obtain rfl : n = i := ho.one n i b p hb ht.was hbody.isCharged (by rw [hspawn]; trivial) (heb.trans he)
      cases ht.was.symm.trans hb
      rw [hspawn] at hbody
      exact hbody
  have hnew {e : Errand} (hcomes : m.comes = some e) : e ≠ .started true := by
    obtain ⟨-, rfl, -⟩ := ht.new hcomes
    exact nofun
  rcases ht.cases hq with ⟨hj, rfl⟩ | ⟨-, q₀, hq₀, hstays, -⟩ | ⟨-, e, hcomes, rfl⟩
  · rcases ht.cases hr with ⟨hk, rfl⟩ | ⟨-, r₀, hr₀, hstays, -⟩ | ⟨-, e, hcomes, rfl⟩
    · exact hj.trans hk.symm
    · exact absurd hqs (hfirst hr₀ (hstays.started.1 hrs) (hstays.execution.symm.trans he.symm))
    · exact absurd hrs (hnew hcomes)
  · rcases ht.cases hr with ⟨-, rfl⟩ | ⟨-, r₀, hr₀, hstays', -⟩ | ⟨-, e, hcomes, rfl⟩
    · exact absurd hrs (hfirst hq₀ (hstays.started.1 hqs) (hstays.execution.symm.trans he))
    · exact ho.once j k q₀ r₀ hq₀ hr₀ (hstays.started.1 hqs) (hstays'.started.1 hrs)
        (hstays.execution.symm.trans (he.trans hstays'.execution))
    · exact absurd hrs (hnew hcomes)
  · exact absurd hqs (hnew hcomes)

theorem Turn.tokened (ht : d.Turn d' i p x m) (h : d.host.Tokened) : d'.host.Tokened := by
  constructor
  · intro id x' hx
    obtain ⟨x₀, hx₀, heq⟩ := ht.token hx
    rw [ht.tokens, heq]
    exact h.there id x₀ hx₀
  · intro id id' x' y' hx hy htoken
    obtain ⟨x₀, hx₀, heq⟩ := ht.token hx
    obtain ⟨y₀, hy₀, heq'⟩ := ht.token hy
    exact h.distinct id id' x₀ y₀ hx₀ hy₀ (heq.symm.trans (htoken.trans heq'))

theorem Orderly.turn (ho : d.Orderly) (ht : d.Turn d' i p x m) : d'.Orderly := by
  constructor
  case there =>
    intro j q' hq
    have hthere : ∃ x₀, d.host.execution? q'.execution = some x₀ := by
      rcases ht.cases hq with ⟨-, rfl⟩ | ⟨-, q, hq₀, hstays, -⟩ | ⟨-, e, -, rfl⟩
      · exact ⟨x, ht.execution⟩
      · rw [hstays.execution]
        exact ho.there j q hq₀
      · exact ⟨x, ht.execution⟩
    rw [ht.execution?]
    split
    · exact ⟨_, rfl⟩
    · exact hthere
  case blank =>
    intro id x' hx hs
    rcases ht.older hx with ⟨rfl, rfl⟩ | ⟨-, hx⟩
    · rcases ht.moves.writes (ho.tells i p x ht.was ht.execution) with hsame | ⟨-, hc, -⟩
      · rw [hsame] at hs ⊢
        exact ho.blank _ x ht.execution hs
      · exact absurd hs ((ho.tells_after ht).claimed hc)
    · exact ho.blank id x' hx hs
  case tells => exact fun _ _ _ => ho.tells_all_after ht
  case one => exact fun _ _ _ _ => ho.one_after ht
  case manned => exact fun _ _ => ho.manned_after ht
  case holder => exact fun _ _ => ho.holder_after ht
  case thread => exact fun _ _ => ho.thread_after ht
  case once => exact fun _ _ _ _ => ho.once_after ht
  case tokened => exact ht.tokened ho.tokened

end

/-! ## Everything else that happens -/

/-- No party makes a move; callers may come, one that waits may wake, and an execution may come into being. -/
structure Rest (d d' : Dealings) : Prop where
  kept : ∀ id x, d.host.execution? id = some x → d'.host.execution? id = some x
  older : ∀ id x', d'.host.execution? id = some x' → d.host.execution? id = some x' ∨
    (d.host.execution? id = none ∧ x'.state = .created ∧ x'.outcome = {})
  token : ∀ t, t < d.host.tokens.length → d'.host.token? t = d.host.token? t
  tokened : d.host.Tokened → d'.host.Tokened
  lock : d'.lock = d.lock
  cases : ∀ (j : Nat) q', d'.parties[j]? = some q' → (∃ q, d.parties[j]? = some q ∧ Stays q q') ∨
    ∃ x r, d.host.execution? q'.execution = some x ∧ q'.errand = Request.errand x r
  stays : ∀ (j : Nat) q, d.parties[j]? = some q → ∃ q', d'.parties[j]? = some q' ∧ Stays q q'

theorem rest_of_host {h : Host} (he : h.executions = d.host.executions) (ht : h.tokens = d.host.tokens) :
    d.Rest { d with host := h } := by
  have hsame (id : ExecutionId) : h.execution? id = d.host.execution? id := by
    unfold Host.execution?
    rw [he]
  have hlen : d.host.tokens.length ≤ h.tokens.length := Nat.le_of_eq (congrArg List.length ht).symm
  refine ⟨fun id x hx => (hsame id).trans hx, fun id x hx => .inl ((hsame id).symm.trans hx), fun t _ => ?_,
    (Host.onward_of_eq he).tokened hlen, rfl, fun j q hq => .inl ⟨q, hq, .refl q⟩, fun j q hq => ⟨q, hq, .refl q⟩⟩
  unfold Host.token?
  rw [ht]

theorem rest_register (o : Order) (unit : ExecutableUnit) :
    d.Rest { d with host := (d.host.registerExecution o unit).2 } := by
  refine ⟨fun id x hx => Host.execution?_registerExecution_of_some hx o unit, fun id x' hx => ?_,
    fun t hlt => List.getElem?_append_left hlt, fun ht => ht.register o unit, rfl, fun j q hq => .inl ⟨q, hq, .refl q⟩, fun j q hq => ⟨q, hq, .refl q⟩⟩
  rw [Host.execution?_registerExecution] at hx
  split at hx
  · rename_i hid
    cases hx
    refine .inr ⟨?_, rfl, rfl⟩
    rw [hid]
    exact List.getElem?_eq_none (Nat.le_refl _)
  · exact .inl hx

theorem rest_come {id : ExecutionId} {x : Execution} (hx : d.host.execution? id = some x) (r : Request) :
    d.Rest { d with parties := d.parties ++ [⟨id, r.errand x⟩] } := by
  refine ⟨fun _ _ h => h, fun _ _ h => .inl h, fun _ _ => rfl, fun h => h, rfl, fun j q hq => ?_, fun j q hq => ?_⟩
  · rw [List.getElem?_append] at hq
    split at hq
    · exact .inl ⟨q, hq, .refl q⟩
    · obtain ⟨-, rfl⟩ := List.getElem?_eq_some_iff.1 hq
      refine .inr ⟨x, r, ?_⟩
      simpa using hx
  · refine ⟨q, ?_, .refl q⟩
    rw [List.getElem?_append_left (List.getElem?_eq_some_iff.1 hq).1, hq]

theorem rest_rouse {i : Nat} {id : ExecutionId} (hi : d.parties[i]? = some ⟨id, .joinParked⟩) :
    d.Rest { d with parties := d.parties.set i ⟨id, .join⟩ } := by
  have hlt : i < d.parties.length := (List.getElem?_eq_some_iff.1 hi).1
  have hnow : (d.parties.set i ⟨id, .join⟩)[i]? = some ⟨id, .join⟩ := List.getElem?_set_self hlt
  refine ⟨fun _ _ h => h, fun _ _ h => .inl h, fun _ _ => rfl, fun h => h, rfl, fun j q hq => ?_, fun j q hq => ?_⟩
  · by_cases hj : j = i
    · subst hj
      cases hnow.symm.trans hq
      exact .inl ⟨_, hi, rfl, .inr ⟨rfl, rfl⟩⟩
    · rw [List.getElem?_set_ne (Ne.symm hj)] at hq
      exact .inl ⟨q, hq, .refl q⟩
  · by_cases hj : j = i
    · subst hj
      cases hi.symm.trans hq
      exact ⟨_, hnow, rfl, .inr ⟨rfl, rfl⟩⟩
    · exact ⟨q, (List.getElem?_set_ne (Ne.symm hj)).trans hq, .refl q⟩

theorem tokens_applyEffects (channel : String) (handle : UInt32) (effects : List Net.Stream.Effect) (h : Host) :
    (effects.foldl (Host.applyEffect channel handle) h).tokens = h.tokens := by
  induction effects generalizing h with
  | nil => rfl
  | cons e effects ih =>
    rw [List.foldl_cons, ih]
    cases e <;> rfl

/-- A thread that serves a stream has nothing to do with executions. -/
theorem rest_stream {i : ThreadId} {h : Host} (hn : (d.host.threads[i]?).any (·.isNetwork) = true)
    (hs : d.host.step i = some h) : d.Rest { d with host := h } := by
  obtain ⟨t, k, t', ht, hk, rfl⟩ := Host.step_eq_some hs
  rw [ht] at hn
  have hq : d.host.Quiet k ∧ k.tokens = d.host.tokens := by
    cases t with
    | stream request s =>
      simp only [HostThread.step] at hk
      split at hk
      · split at hk <;> cases hk
        exact ⟨Host.quiet_foldl _ (Host.quiet_applyEffect _ _) _ _, tokens_applyEffects _ _ _ _⟩
      · cases hk
    | _ => cases hn
  exact rest_of_host hq.1.executions hq.2

theorem rest_of_step {a : Act} (hs : d.step a = some d') (hn : ∀ i, a ≠ .move i) : d.Rest d' := by
  cases a with
  | move i => exact absurd rfl (hn i)
  | register o unit =>
    cases hs
    exact rest_register o unit
  | come id r =>
    obtain ⟨x, hx, hs⟩ := Option.map_eq_some_iff.1 hs
    cases hs
    exact rest_come hx r
  | rouse i =>
    simp only [step] at hs
    split at hs
    · rename_i id hi
      cases hs
      exact rest_rouse hi
    · cases hs
  | stream i =>
    simp only [step] at hs
    split at hs
    · rename_i hnet
      obtain ⟨h, hh, hs⟩ := Option.map_eq_some_iff.1 hs
      cases hs
      exact rest_stream hnet hh
    · cases hs
  | post channel event params =>
    simp only [step] at hs
    split at hs
    · cases hs
      exact rest_of_host rfl rfl
    · cases hs
  | elapse millis | surroundings =>
    cases hs
    exact rest_of_host rfl rfl

theorem step_cases {a : Act} (hs : d.step a = some d') :
    (∃ i p x m, a = .move i ∧ d.Turn d' i p x m) ∨ ((∀ i, a ≠ .move i) ∧ d.Rest d') := by
  by_cases hm : ∃ i, a = .move i
  · obtain ⟨i, rfl⟩ := hm
    obtain ⟨p, x, m, ht⟩ := turn_of_step hs
    exact .inl ⟨i, p, x, m, rfl, ht⟩
  · have hn (i : Nat) : a ≠ .move i := fun h => hm ⟨i, h⟩
    exact .inr ⟨hn, rest_of_step hs hn⟩

/-- Who has just come is in charge of nothing, holds nothing and has nothing to tell. -/
theorem Request.errand_idle (x : Execution) (r : Request) : ¬ (r.errand x).isCharged ∧ ¬ (r.errand x).holds ∧
    r.errand x ≠ .started true ∧ (r.errand x).Tells x := by
  cases r <;> exact ⟨fun h => h, fun h => h, nofun, by trivial⟩

theorem Orderly.rest (ho : d.Orderly) (hr : d.Rest d') : d'.Orderly := by
  have hcharged {j : Nat} {q : Party} (hq : d'.parties[j]? = some q) (hc : q.errand.isCharged) :
      ∃ q₀, d.parties[j]? = some q₀ ∧ q₀.errand.isCharged ∧ q₀.execution = q.execution := by
    rcases hr.cases j q hq with ⟨q₀, hq₀, hstays⟩ | ⟨x, r, -, he⟩
    · exact ⟨q₀, hq₀, hstays.isCharged.1 hc, hstays.execution.symm⟩
    · obtain ⟨hidle, -⟩ := r.errand_idle x
      rw [he] at hc
      exact absurd hc hidle
  have hstarted {j : Nat} {q : Party} (hq : d'.parties[j]? = some q) (hs : q.errand = .started true) :
      ∃ q₀, d.parties[j]? = some q₀ ∧ q₀.errand = .started true ∧ q₀.execution = q.execution := by
    rcases hr.cases j q hq with ⟨q₀, hq₀, hstays⟩ | ⟨x, r, -, he⟩
    · exact ⟨q₀, hq₀, hstays.started.1 hs, hstays.execution.symm⟩
    · obtain ⟨-, -, hnew, -⟩ := r.errand_idle x
      exact absurd (he.symm.trans hs) hnew
  constructor
  case there =>
    intro j q hq
    rcases hr.cases j q hq with ⟨q₀, hq₀, hstays⟩ | ⟨x, r, hx, -⟩
    · obtain ⟨x, hx⟩ := ho.there j q₀ hq₀
      exact ⟨x, hr.kept _ x (by rw [hstays.execution]; exact hx)⟩
    · exact ⟨x, hr.kept _ x hx⟩
  case tells =>
    intro j q x hq hx
    rcases hr.cases j q hq with ⟨q₀, hq₀, hstays⟩ | ⟨x₀, r, hx₀, he⟩
    · obtain ⟨x₀, hx₀⟩ := ho.there j q₀ hq₀
      rw [hstays.execution, hr.kept _ x₀ hx₀] at hx
      cases hx
      exact hstays.tells (ho.tells j q₀ x hq₀ hx₀)
    · rw [hr.kept _ x₀ hx₀] at hx
      cases hx
      obtain ⟨-, -, -, htells⟩ := r.errand_idle x
      rw [he]
      exact htells
  case one =>
    intro j k q r hq hr' hqc hrc he
    obtain ⟨q₀, hq₀, hqc, heq⟩ := hcharged hq hqc
    obtain ⟨r₀, hr₀, hrc, her⟩ := hcharged hr' hrc
    exact ho.one j k q₀ r₀ hq₀ hr₀ hqc hrc (heq.trans (he.trans her.symm))
  case manned =>
    intro id x hx hs
    rcases hr.older id x hx with hx | ⟨-, hc, -⟩
    · obtain ⟨j, q, hq, he, hc⟩ := ho.manned id x hx hs
      obtain ⟨q', hq', hstays⟩ := hr.stays j q hq
      exact ⟨j, q', hq', hstays.execution.trans he, hstays.isCharged.2 hc⟩
    · exact absurd hc hs
  case blank =>
    intro id x hx hs
    rcases hr.older id x hx with hx | ⟨-, -, hblank⟩
    · exact ho.blank id x hx hs
    · exact hblank
  case holder =>
    intro j q hq hh
    rw [hr.lock]
    rcases hr.cases j q hq with ⟨q₀, hq₀, hstays⟩ | ⟨x, r, -, he⟩
    · rw [hstays.execution]
      exact ho.holder j q₀ hq₀ (hstays.holds.1 hh)
    · obtain ⟨-, hfree, -⟩ := r.errand_idle x
      rw [he] at hh
      exact absurd hh hfree
  case thread =>
    intro j q hq hs
    obtain ⟨q₀, hq₀, hs, he⟩ := hstarted hq hs
    obtain ⟨k, r, hr₀, her, hbody⟩ := ho.thread j q₀ hq₀ hs
    obtain ⟨r', hr', hstays⟩ := hr.stays k r hr₀
    exact ⟨k, r', hr', hstays.execution.trans (her.trans he), hstays.isBody.2 hbody⟩
  case once =>
    intro j k q r hq hr' hqs hrs he
    obtain ⟨q₀, hq₀, hqs, heq⟩ := hstarted hq hqs
    obtain ⟨r₀, hr₀, hrs, her⟩ := hstarted hr' hrs
    exact ho.once j k q₀ r₀ hq₀ hr₀ hqs hrs (heq.trans (he.trans her.symm))
  case tokened => exact hr.tokened ho.tokened

end Dealings

end Scripting
