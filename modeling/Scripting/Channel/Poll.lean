/-
Polling with a wait. A poller takes the queue for itself, looks for a message and, where there is
none, looks at its stop flag and falls asleep in one move that also lets go of the queue. A post wakes
one sleeper, a stop request all of them; a sleeper whose time is up wakes by itself, without the queue,
and looks once more when it has it. Each move below is one that no other thread can come between.
-/
import Scripting.Channel.Basic
import Scripting.Stop.Token

namespace Scripting

/-- What a stop request wakes: the sleepers of a channel. -/
abbrev WokenChannel := String

/-- Where a poller stands. -/
inductive Poll.Phase where
  /-- It has done nothing yet. -/
  | arriving
  /-- Its waker is registered and it wants the queue. -/
  | wanting
  /-- It holds the queue and is about to look for a message. -/
  | looking
  /-- It holds the queue, which is empty, and is about to look at its stop flag. -/
  | empty
  /-- It holds the queue, was not asked to stop and is about to fall asleep. -/
  | tired
  /-- It sleeps, or has been woken and wants the queue again. -/
  | asleep
  /-- Its time is up before anybody woke it, and it wants the queue again. -/
  | late
  /-- Its time is up; it holds the queue and is about to look for the last time. -/
  | lastLook
  /-- It holds the queue and has its result. -/
  | leaving (result : Option Message)
  /-- It has let go of the queue and is about to take its waker away. -/
  | left (result : Option Message)
  /-- It is through. -/
  | done (result : Option Message)
  deriving DecidableEq, Inhabited

/-- One call that waits for a message. -/
structure Poll where
  self : PollerId
  channel : String
  /-- When the wait ends without a message; none waits without limit. -/
  deadline : Option Nat
  /-- The number of the waker, where one is registered. -/
  waker : Option Nat := none
  phase : Poll.Phase := .arriving
  deriving Inhabited

namespace Poll

/-- What a move of a poller can change: its channel, its stop token and itself. -/
structure Scene where
  queue : Channel
  token : Option (StopToken WokenChannel)
  poll : Poll

/-- Takes the queue if nobody holds it. -/
def takeQueue (s : Scene) (next : Phase) : Option Scene :=
  if s.queue.holder.isNone then
    some { s with
      queue := { s.queue with holder := some s.poll.self }
      poll := { s.poll with phase := next } }
  else none

/-- One move of a poller at a moment; none while it has to wait. -/
def step (now : Nat) (s : Scene) : Option Scene :=
  let p := s.poll
  let goOn (phase : Phase) : Option Scene := some { s with poll := { p with phase } }
  match p.phase with
  | .arriving =>
    match s.token with
    | some t =>
      let (t, waker) := t.onStop p.channel
      some { s with token := some t, poll := { p with waker := some waker, phase := .wanting } }
    | none => goOn .wanting
  | .wanting => takeQueue s .looking
  | .looking =>
    match s.queue.poll with
    | (some m, queue) => some { s with queue, poll := { p with phase := .leaving (some m) } }
    | (none, _) => goOn .empty
  | .empty => goOn (if s.token.any (·.stopped) then .leaving none else .tired)
  | .tired =>
    some { s with
      queue := { s.queue with holder := none, sleepers := s.queue.sleepers ++ [p.self] }
      poll := { p with phase := .asleep } }
  | .asleep =>
    if s.queue.sleepers.contains p.self then
      if p.deadline.any (· ≤ now) then
        some { s with
          queue := { s.queue with sleepers := s.queue.sleepers.filter (· != p.self) }
          poll := { p with phase := .late } }
      else none
    else takeQueue s .looking
  | .late => takeQueue s .lastLook
  | .lastLook =>
    let (m, queue) := s.queue.poll
    some { s with queue, poll := { p with phase := .leaving m } }
  | .leaving m =>
    some { s with queue := { s.queue with holder := none }, poll := { p with phase := .left m } }
  | .left m =>
    some { s with
      token := s.token.map fun t => (p.waker.map t.drop).getD t
      poll := { p with phase := .done m } }
  | .done _ => none

/-- The result of a poller that is through. -/
def result? (p : Poll) : Option (Option Message) :=
  match p.phase with
  | .done m => some m
  | _ => none

/-- When a poller that sleeps will wake without help. -/
def wakesAt? (p : Poll) : Option Nat :=
  match p.phase with
  | .asleep => p.deadline
  | _ => none

end Poll

end Scripting
