/-
Running a host. Threads take turns, each until it has to wait; when all wait, the clock goes on to the
next moment at which one of them wakes. A thread that never waits uses up the clock as it works. A
caller from outside waits in the same way for what it asked.
-/
import Scripting.Host.Step

namespace Scripting.Host

/-! ## Turns -/

/-- The moves of one turn of a thread. -/
def turnLength : Nat := 1000

/-- The milliseconds that a turn takes if the thread does not come to wait. -/
def turnMillis : Nat := 10

/-- Moves a thread until it has to wait or its moves are used up; tells which, and whether it moved
at all. -/
def turn (i : ThreadId) : Nat → Host → Bool × Bool × Host
  | 0, h => (true, true, h)
  | n + 1, h =>
    match h.step i with
    | none => (false, false, h)
    | some h =>
      let (busy, _, h) := turn i n h
      (busy, true, h)

/-- One turn for every thread that is there, of the network or not. -/
def round (network : Bool) (h : Host) : Bool × Bool × Host :=
  (List.range h.threads.length).foldl (fun (busy, moved, h) i =>
    if (h.threads[i]?).any (·.isNetwork) && !network then (busy, moved, h)
    else
      let (b, m, h) := h.turn i turnLength
      (busy || b, moved || m, h)) (false, false, h)

/-- Rounds until all threads wait or one uses up its moves. -/
def settle : Nat → Host → Bool × Host
  | 0, h => (true, h)
  | n + 1, h =>
    match h.round false with
    | (true, _, h) => (true, h)
    | (false, true, h) => settle n h
    | (false, false, h) => (false, h)

/-- Lets the threads go on for as long as they can without the network and without time. -/
def settled (h : Host) : Host := (h.settle 1000).2

/-! ## Waiting -/

/-- The earliest of two moments. -/
def earliest (a b : Option Nat) : Option Nat :=
  match a, b with
  | some a, some b => some (min a b)
  | a, none => a
  | none, b => b

/-- The next moment at which a thread wakes without help. -/
def nextWake (h : Host) : Option Nat :=
  h.threads.foldl (fun m t => earliest m t.wakesAt?) none

/-- Something that a caller from outside waits for. -/
structure Waiter (σ : Type) where
  step : Host → σ → Option (Host × σ)
  isDone : Host → σ → Bool
  wakesAt? : σ → Option Nat

/-- Moves a caller until it has to wait or its moves are used up; tells which. -/
def Waiter.advance {σ : Type} (w : Waiter σ) : Nat → Host → σ → Bool × Host × σ
  | 0, h, s => (true, h, s)
  | n + 1, h, s =>
    if w.isDone h s then (false, h, s)
    else match w.step h s with
      | none => (false, h, s)
      | some (h, s) => w.advance n h s

/-- Runs the host until a caller has what it waits for, or the deadline has passed, or nothing can
move any more. -/
def Waiter.run {σ : Type} (w : Waiter σ) (deadline : Option Nat) : Nat → Host → σ → Host × σ
  | 0, h, s => (h, s)
  | n + 1, h, s =>
    let (busy, h, s) := w.advance turnLength h s
    if w.isDone h s then (h, s)
    else
      let (busy', h) := h.settle 1000
      if busy || busy' then
        let h := { h with clock := h.clock + turnMillis }
        if w.isDone h s || deadline.any (· ≤ h.clock) then (h, s) else w.run deadline n h s
      else
        let (_, h, s) := w.advance turnLength h s
        if w.isDone h s then (h, s)
        else match h.round true with
          | (_, true, h) => w.run deadline n h s
          | (_, false, h) =>
            match earliest deadline (earliest (w.wakesAt? s) h.nextWake) with
            | none => (h, s)
            | some t =>
              let h := { h with clock := max h.clock t }
              if deadline.any (· ≤ h.clock) then
                let (_, h) := h.settle 1000
                (w.advance turnLength h s).2
              else w.run deadline n h s

/-- More turns than any caller waits for. -/
def patience : Nat := 1000000

/-! ## Callers -/

/-- The seat of a caller from outside: it runs for no execution. The number of its poller is none of
a thread's. -/
def outside (h : Host) : Seat := { self := h.threads.length + 1000000 }

/-- Runs a routine for a caller from outside. -/
def run {α : Type} (h : Host) (p : Routine α) : Host × Option α :=
  let seat := h.outside
  let w : Waiter (Activity α) := {
    step := fun h a => a.step seat h
    isDone := fun _ a => match a with
      | .done _ => true
      | _ => false
    wakesAt? := Activity.wakesAt? }
  match w.run none patience h (.going p) with
  | (h, .done a) => (h, some a)
  | (h, _) => (h, none)

/-- Runs a routine for a caller from outside, and raises a token after some time if the routine is not
through by then. -/
def runStopping {α : Type} (h : Host) (token : TokenId) (millis : Nat) (p : Routine α) :
    Host × Option α :=
  let seat := h.outside
  let w : Waiter (Activity α) := {
    step := fun h a => a.step seat h
    isDone := fun _ a => match a with
      | .done _ => true
      | _ => false
    wakesAt? := Activity.wakesAt? }
  let (h, a) := w.run (some (h.clock + millis)) patience h (.going p)
  match w.run none patience (h.stopToken token) a with
  | (h, .done a) => (h, some a)
  | (h, _) => (h, none)

/-- Fulfils an order for a caller from outside. -/
def fulfil (h : Host) (o : Order) (starts : Bool) : Host × Option (Except OrderError ExecutionId) :=
  let w : Waiter Fulfilment := {
    step := fun h f => f.step h
    isDone := fun _ f => match f.phase with
      | .done _ => true
      | _ => false
    wakesAt? := Fulfilment.wakesAt? }
  let f : Fulfilment := { self := h.outside.self, order := o, starts }
  match w.run none patience h f with
  | (h, { phase := .done r, .. }) => (h, some r)
  | (h, _) => (h, none)

/-- Leaves an order to a thread of its own. -/
def leave (h : Host) (o : Order) (starts : Bool) : ThreadId × Host :=
  let i := h.threads.length
  (i, { h with threads := h.threads ++ [.fulfilment { self := i, order := o, starts }] })

/-- Whether an execution has finished. -/
def isFinished (h : Host) (id : ExecutionId) : Bool :=
  (h.execution? id).any (·.state == .finished)

/-- Runs the host until an execution has finished; the answer tells whether it has. -/
def waitFinished (h : Host) (id : ExecutionId) (deadline : Option Nat) : Host × Bool :=
  let w : Waiter Unit := {
    step := fun _ _ => none
    isDone := fun h _ => h.isFinished id
    wakesAt? := fun _ => none }
  let (h, _) := w.run deadline patience h ()
  (h, h.isFinished id)

/-- Waits until an execution has finished. -/
def join (h : Host) (id : ExecutionId) : Host := (h.waitFinished id none).1

/-- Waits until an execution has finished, but no longer than a span. No clock shows the end of a
span that is too long: such a wait gives no answer. -/
def joinTimeout (h : Host) (id : ExecutionId) (span : Nat) : Option (Host × Bool) :=
  (Timestamp.after? h.clock span).map fun deadline => h.waitFinished id (some deadline)

/-- Runs the host until an order that was left to a thread is fulfilled. -/
def waitFulfilled (h : Host) (i : ThreadId) : Host × Option (Except OrderError ExecutionId) :=
  let result (h : Host) : Option (Except OrderError ExecutionId) :=
    match h.threads[i]? with
    | some (.fulfilment { phase := .done r, .. }) => some r
    | _ => none
  let w : Waiter Unit := {
    step := fun _ _ => none
    isDone := fun h _ => (result h).isSome
    wakesAt? := fun _ => none }
  let (h, _) := w.run none patience h ()
  (h, result h)

/-- Stops every registered execution and whatever is being made ready. -/
def stopAll (h : Host) : Host :=
  let w : Waiter StopAll := {
    step := fun h s => s.step h
    isDone := fun _ s => match s with
      | .done => true
      | _ => false
    wakesAt? := fun _ => none }
  (w.run none patience h .start).1

/-- Asks an execution to stop. -/
def requestStop (h : Host) (id : ExecutionId) : Host :=
  match h.execution? id with
  | some e => h.stopToken e.token
  | none => h

/-- Lets time pass. -/
def sleep (h : Host) (millis : Nat) : Host :=
  let w : Waiter Unit := {
    step := fun _ _ => none
    isDone := fun _ _ => false
    wakesAt? := fun _ => none }
  (w.run (some (h.clock + millis)) patience h ()).1

/-- The registered executions by their thread names. -/
def list (h : Host) : List (String × ExecutionState) :=
  h.registry.entries.filterMap fun (name, id) => (h.execution? id).map fun e => (name, e.state)

def registrySummary (h : Host) : String :=
  Text.summary "ScriptRegistry"
    [("threads", Text.listing (h.list.map fun (name, s) => "(" ++ Text.quoted name ++ ", " ++ s.name ++ ")"))]

end Scripting.Host
