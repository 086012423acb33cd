/-
How long a host waits. A wait for a message looks for the end of its span on the clock; where no clock
shows it, the wait is one without a limit, which time does not end. A wait for the end of an execution
takes the same sum and has no such way out.
-/
import Mathlib.Algebra.Group.Nat.Defs
import Scripting.Proofs.Channel.Moves
import Scripting.Proofs.Host.Course

namespace Scripting

namespace Timestamp

theorem after?_of_lt {now span : Nat} (hs : now + span < last) : after? now span = some (now + span) :=
  if_pos hs

theorem after?_eq_none_iff {now span : Nat} : after? now span = none ↔ last ≤ now + span := by
  unfold after?
  split
  · rename_i hs
    simp only [reduceCtorEq, false_iff]
    omega
  · rename_i hs
    simp only [true_iff]
    omega

/-- The longest span that can be asked for, in milliseconds. -/
def longestSpan : Nat := (2 ^ 64 - 1) * 1000 + 999

/-- The longest span has no end on any clock, whatever the clock shows. -/
theorem after?_longestSpan (now : Nat) : after? now longestSpan = none := by
  rw [after?_eq_none_iff]
  have : last ≤ longestSpan := by decide
  omega

end Timestamp

/-! ## A poller without a deadline -/

namespace Poll

section

variable {now : Nat} {s s' : Scene}

/-- A poller whose time is not up comes to nothing only where it was asked to stop. -/
theorem Moves.stopped_of_none (hm : Moves now s s') (hl : ¬ s.poll.phase.isLate) (hn : s.poll.verdict? ≠ some none)
    (hr : s'.poll.verdict? = some none) : s.token.any (·.stopped) = true := by
  cases hm with
  | giveUp _ ht => exact ht
  | lookLast hp => exact absurd (by rw [hp]; trivial) hl
  | leave hp | unregister hp =>
    unfold Poll.verdict? at hn hr
    rw [hp] at hn
    exact absurd hr hn
  | register | arrive | enter | take | miss | tire | park | lapse | wake | enterLate => cases hr

end

end Poll

namespace Host

/-- One move of the poller that waits for a seat. -/
def pollFor (seat : Seat) (h : Host) (p : Poll) : Option (Host × Poll) := h.stepPoll (h.seatToken seat) p

/-- Whoever has the seat was asked to stop. -/
def StopsSeat (h : Host) (seat : Seat) : Prop := ∃ t, h.seatToken seat = some t ∧ h.isStopped t = true

theorem stopsSeat_of_any {h : Host} {seat : Seat}
    (hs : (h.seatToken seat >>= h.token?).any (·.stopped) = true) : h.StopsSeat seat := by
  unfold StopsSeat
  cases ht : h.seatToken seat with
  | none =>
    rw [ht] at hs
    cases hs
  | some t =>
    rw [ht] at hs
    exact ⟨t, rfl, hs⟩

section

variable {between : Event → Prop} {seat : Seat} {h k : Host} {p q : Poll}

/-- Whatever happens meanwhile, the time of a poller without a deadline is never up. -/
theorem unlimited_of_course (hc : Course between (pollFor seat) h p k q) (hd : p.deadline = none)
    (hp : ¬ p.phase.isLate) : q.deadline = none ∧ ¬ q.phase.isLate := by
  induction hc with
  | start => exact ⟨hd, hp⟩
  | move _ hs ih =>
    obtain ⟨s', hm, rfl, -⟩ := stepPoll_cases hs
    obtain ⟨-, -, hdl⟩ := hm.self_channel
    refine ⟨hdl.trans ih.1, fun hl => ?_⟩
    rcases hm.isLate hl with hl | hl
    · exact ih.2 hl
    · rw [ih.1] at hl
      cases hl
  | event _ _ _ ih => exact ih

/-- A poller without a deadline that ends with no message saw on its way that it was to stop. -/
theorem stopped_of_course (hc : Course between (pollFor seat) h p k q) (hd : p.deadline = none)
    (hp : p.verdict? = none) (hl : ¬ p.phase.isLate) (hr : q.verdict? = some none) :
    ∃ k1 q1, Course between (pollFor seat) h p k1 q1 ∧ Course between (pollFor seat) k1 q1 k q ∧ k1.StopsSeat seat := by
  induction hc with
  | start =>
    rw [hp] at hr
    cases hr
  | @move k k' q q' hc hs ih =>
    by_cases hq : q.verdict? = some none
    · obtain ⟨k1, q1, h1, h2, hst⟩ := ih hq
      exact ⟨k1, q1, h1, .move h2 hs, hst⟩
    · -- this is the move by which it came to nothing
      obtain ⟨s', hm, rfl, -⟩ := stepPoll_cases hs
      have hlate := (unlimited_of_course hc hd hl).2
      exact ⟨k, q, hc, .move .start hs, stopsSeat_of_any (hm.stopped_of_none hlate hq hr)⟩
  | event _ hb hs ih =>
    obtain ⟨k1, q1, h1, h2, hst⟩ := ih hr
    exact ⟨k1, q1, h1, .event h2 hb hs, hst⟩

end

/-! ## Waits with a span -/

/-- A wait for a message begins at once, with the deadline that the clock shows. -/
theorem await_begins {α : Type} (seat : Seat) (h : Host) (channel : String) (wait : Option Nat)
    (resume : Option Message → Routine α) :
    Activity.step seat h (.going (.ask (.await channel wait) resume)) =
      some ({ h with bus := h.bus.ensure channel },
        .polling { self := seat.self, channel, deadline := wait >>= Timestamp.after? h.clock } resume) := rfl

theorem passes_of_course {between : Event → Prop} {σ : Type} {h k : Host} {s t : σ}
    (hc : Course between (fun _ _ => none) h s k t) : Passes between h k := by
  induction hc with
  | start => exact .refl
  | move _ hs _ => cases hs
  | event _ hb hs ih => exact ih.tail ⟨_, hb, hs⟩

/-- A wait for the end of an execution answers whether it came, after whatever happened meanwhile. -/
theorem of_waitFinished {h k : Host} {id : ExecutionId} {deadline : Option Nat} {b : Bool}
    (hs : h.waitFinished id deadline = (k, b)) : b = k.isFinished id ∧ Passes Event.Unasked h k := by
  unfold waitFinished at hs
  simp only at hs
  generalize hrun : Waiter.run _ deadline patience h () = r at hs
  obtain ⟨k', u⟩ := r
  cases hs
  exact ⟨rfl, passes_of_course (course_of_run hrun)⟩

/-- A poller waits without a limit: time does not end its wait, whatever happens meanwhile, and if it ends
with no message then it saw on its way that it was to stop. -/
structure WaitsOn (seat : Seat) (h : Host) (p : Poll) : Prop where
  never_late : ∀ between k q, Course between (pollFor seat) h p k q → ¬ q.phase.isLate
  stopped : ∀ between k q, Course between (pollFor seat) h p k q → q.result? = some none →
    ∃ k1 q1, Course between (pollFor seat) h p k1 q1 ∧ Course between (pollFor seat) k1 q1 k q ∧ k1.StopsSeat seat

theorem waitsOn_of_unlimited (seat : Seat) (h : Host) {p : Poll} (hd : p.deadline = none) (hp : p.phase = .arriving) :
    WaitsOn seat h p := by
  have hl : ¬ p.phase.isLate := by rw [hp]; exact id
  have hv : p.verdict? = none := by
    unfold Poll.verdict?
    rw [hp]
  refine ⟨fun between k q hc => (unlimited_of_course hc hd hl).2, fun between k q hc hr => ?_⟩
  exact stopped_of_course hc hd hv hl (Poll.verdict?_of_result? hr)

/-- A wait for a message begins whatever its span and whatever the clock shows. Its deadline is the end of
the span; where no clock shows that, it is the wait without a limit. A wait for the end of an execution
gives an answer exactly where a clock shows the end of its span. -/
theorem waits_unless_past_clock (h : Host) (span : Nat) :
    (∀ (α : Type) (seat : Seat) (channel : String) (resume : Option Message → Routine α), ∃ k p,
      Activity.step seat h (.going (.ask (.await channel (some span)) resume)) = some (k, .polling p resume) ∧
      (h.clock + span < Timestamp.last → p.deadline = some (h.clock + span)) ∧
      (Timestamp.last ≤ h.clock + span →
        Activity.step seat h (.going (.ask (.await channel none) resume)) = some (k, .polling p resume) ∧
        WaitsOn seat k p)) ∧
    ∀ id, (h.joinTimeout id span = none ↔ Timestamp.last ≤ h.clock + span) ∧
      (h.clock + span < Timestamp.last → ∃ k, h.joinTimeout id span = some (k, k.isFinished id) ∧
        h.waitFinished id (some (h.clock + span)) = (k, k.isFinished id) ∧ Passes Event.Unasked h k) := by
  constructor
  · intro α seat channel resume
    refine ⟨_, _, await_begins seat h channel (some span) resume, fun hs => Timestamp.after?_of_lt hs, fun hs => ?_⟩
    have hn : (some span >>= Timestamp.after? h.clock) = none := Timestamp.after?_eq_none_iff.2 hs
    rw [hn]
    exact ⟨await_begins seat h channel none resume, waitsOn_of_unlimited seat _ rfl rfl⟩
  · intro id
    constructor
    · unfold joinTimeout
      rw [Option.map_eq_none_iff, Timestamp.after?_eq_none_iff]
    · intro hs
      cases hk : h.waitFinished id (some (h.clock + span)) with
      | mk k b =>
        obtain ⟨rfl, hp⟩ := of_waitFinished hk
        refine ⟨k, ?_, rfl, hp⟩
        unfold joinTimeout
        rw [Timestamp.after?_of_lt hs, Option.map_some, hk]

/-- On any host, a wait for the end of an execution over the longest span gives no answer, where the same
wait for a message begins. -/
theorem longest_wait_unanswered :
    Host.plain.joinTimeout 0 Timestamp.longestSpan = none ∧
      (Activity.step { self := 0 } Host.plain
        (.going (Routine.demand (.await "a" (some Timestamp.longestSpan))))).isSome = true := by
  constructor
  · unfold joinTimeout
    rw [Timestamp.after?_longestSpan, Option.map_none]
  · rfl

end Host

end Scripting
