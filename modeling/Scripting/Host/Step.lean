/-
The moves of the threads. Every move is one change of the host that no other thread can come between;
a thread that has to wait has no move.
-/
import Scripting.Host.Basic

namespace Scripting

/-! ## Stop requests -/

/-- One move of a stop request. -/
def StopRequest.step (h : Host) (r : StopRequest) : Option (Host × StopRequest) :=
  match r.phase with
  | .start =>
    match h.token? r.token with
    | none => some (h, { r with phase := .done })
    | some t =>
      if t.stopped then some (h, { r with phase := .done })
      else
        some (h.setToken r.token { t with stopped := true, cancelled := true }, { r with phase := .raised })
  | .raised =>
    let wakers := ((h.token? r.token).map fun t => t.wakers.map Prod.snd).getD []
    some (h, { r with phase := .waking wakers })
  | .waking [] => some (h, { r with phase := .done })
  | .waking (c :: left) =>
    if h.isFree c then
      some ({ h with bus := h.bus.setChannel c (h.bus.channel c).wakeAll },
        { r with phase := .waking left })
    else none
  | .done => none

namespace Host

/-- Raises the flag of a token and wakes whoever waits on it, all in one. -/
def stopToken (h : Host) (t : TokenId) : Host :=
  match h.token? t with
  | none => h
  | some token =>
    let (token, woken) := token.request
    let h := h.setToken t token
    { h with bus := woken.foldl (fun b c => b.setChannel c (b.channel c).wakeAll) h.bus }

end Host

/-- One move of a request to stop everything. -/
def StopAll.step (h : Host) (s : StopAll) : Option (Host × StopAll) :=
  let next (tokens : List TokenId) : StopAll :=
    match tokens with
    | [] => .done
    | t :: left => .stopping { token := t } left
  match s with
  | .start => some (h, .listed (h.registry.entries.map Prod.snd))
  | .listed ids =>
    let tokens := ids.filterMap fun id => (h.execution? id).map (·.token)
    some (h, next (tokens ++ h.registry.compiling.map Prod.snd))
  | .stopping r left =>
    match r.phase with
    | .done => some (h, next left)
    | _ => (r.step h).map fun (h, r) => (h, .stopping r left)
  | .done => none

/-! ## Routines -/

/-- Who a routine runs for. -/
structure Seat where
  self : PollerId
  /-- The execution whose thread the routine runs on. -/
  execution : Option ExecutionId := none

namespace Host

/-- The token whose stop gives up the waits of a seat. -/
def seatToken (h : Host) (seat : Seat) : Option TokenId :=
  seat.execution >>= fun id => (h.execution? id).map (·.token)

/-- Gives a routine what it asks for; none while it has to wait for a queue. Waiting for a message is
no one move, so it is not served here. -/
def serve (h : Host) (seat : Seat) : (d : Demand) → Option (d.Answer × Host)
  | .channel name => some ((), { h with bus := h.bus.ensure name })
  | .post channel event params =>
    if h.isFree channel then some ((), h.post channel event params) else none
  | .poll channel =>
    if h.isFree channel then
      let (m, bus) := h.bus.poll channel
      some (m, { h with bus })
    else none
  | .await .. => none
  | .request c => some (h.request (h.seatToken seat) c)
  | .openStream c => some (h.openStream c)
  | .send handle text => some (h.fulfilWish handle (.send text))
  | .close handle code reason => some (h.fulfilWish handle (.close code reason))
  | .currentThread =>
    some (seat.execution >>= fun id => (h.execution? id).map (·.threadName), h)
  | .shapes => some (h.environment.shapes, h)
  | .isStopped t => some (h.isStopped t, h)
  | .stop t => some ((), h.stopToken t)
  | .log e => some ((), h.logged [e])
  | .yield => some ((), h)

/-- One move of a poller. -/
def stepPoll (h : Host) (token : Option TokenId) (p : Poll) : Option (Host × Poll) :=
  let scene : Poll.Scene := {
    queue := h.bus.channel p.channel
    token := token >>= h.token?
    poll := p }
  (Poll.step h.clock scene).map fun s =>
    let h := { h with bus := h.bus.setChannel p.channel s.queue }
    match token, s.token with
    | some t, some stop => (h.setToken t stop, s.poll)
    | _, _ => (h, s.poll)

end Host

/-- One move of a routine on its way. -/
def Activity.step {α : Type} (seat : Seat) (h : Host) (a : Activity α) : Option (Host × Activity α) :=
  match a with
  | .done _ => none
  | .going (.done a) => some (h, .done a)
  | .going (.ask (.await channel wait) resume) =>
    let deadline := wait >>= Timestamp.after? h.clock
    some ({ h with bus := h.bus.ensure channel },
      .polling { self := seat.self, channel, deadline } resume)
  | .going (.ask d resume) => (h.serve seat d).map fun (r, h) => (h, .going (resume r))
  | .polling p resume =>
    match p.result? with
    | some m => some (h, .going (resume m))
    | none => (h.stepPoll (h.seatToken seat) p).map fun (h, p) => (h, .polling p resume)

/-- When a routine that waits will go on without help. -/
def Activity.wakesAt? {α : Type} : Activity α → Option Nat
  | .polling p _ => p.wakesAt?
  | _ => none

/-! ## Executions -/

namespace Host

/-- Starts an execution that is only created, on a thread of its own. A thread name with a NUL in it is
left out: it panics where the thread is made, with the execution already running and nobody to end it. -/
def start (h : Host) (id : ExecutionId) : Except SpawnError Bool × Host :=
  match (h.execution? id) >>= fun e => e.start?.map (e, ·) with
  | none => (.ok false, h)
  | some (e, running) =>
    match h.environment.spawnFailure e.threadName with
    | some text =>
      (.error ⟨e.threadName, text⟩, h.setExecution id (running.finish { failure := some text }))
    | none =>
      let h := h.setExecution id running
      (.ok true, { h with threads := h.threads ++ [.body id (.going running.body)] })

/-- Ends an execution as its body ended. -/
def finish (h : Host) (id : ExecutionId) (ending : Ending) : Host :=
  match h.execution? id with
  | none => h
  | some e =>
    let events := if ending.outcome.failure.isSome then
        [Log.error "Script execution failed" [("thread_name", e.threadName)]] else []
    (h.setExecution id (e.finish ending.outcome)).logged events

/-- A new execution of a unit, registered under its thread name. -/
def registerExecution (h : Host) (o : Order) (unit : ExecutableUnit) : ExecutionId × Host :=
  let (token, h) := h.newToken
  let id := h.executions.length
  (id, { h with
    executions := h.executions ++ [{
      threadName := o.threadName, sourceId := o.sourceId, functionName := o.functionName
      params := o.params, unit, token }]
    registry := { h.registry with entries := Assoc.insert o.threadName id h.registry.entries } })

end Host

/-! ## Orders -/

namespace Fulfilment

/-- The phase behind a found or built execution. -/
def found (f : Fulfilment) (id : ExecutionId) : Phase := if f.starts then .start id else .done (.ok id)

/-- One move of the fulfilment of an order. -/
def step (h : Host) (f : Fulfilment) : Option (Host × Fulfilment) :=
  let goOn (h : Host) (phase : Phase) : Option (Host × Fulfilment) := some (h, { f with phase })
  let name := f.order.threadName
  let registry := h.registry
  match f.phase with
  | .lookUp =>
    match h.live? name with
    | some id => goOn h (f.found id)
    | none => goOn h .wantBuild
  | .wantBuild =>
    if Assoc.contains name registry.builders then none
    else
      goOn { h with registry := { registry with
        builders := Assoc.insert name f.self registry.builders } } .lookAgain
  | .lookAgain =>
    match h.live? name with
    | some id => goOn h (.release (.ok id))
    | none => goOn h .announce
  | .announce =>
    let (token, h) := h.newToken
    goOn { h with registry := { h.registry with
      compiling := Assoc.insert name token h.registry.compiling } } (.resolve token)
  | .resolve token =>
    match h.environment.resolve f.order.sourceId with
    | .error e => goOn h (.retract (.error e))
    | .ok [] => goOn h (.retract (.error (.notFound f.order.sourceId)))
    | .ok sources => goOn h (.compile token (.going (h.environment.compile token sources)))
  | .compile token work =>
    match work with
    | .done unit? =>
      match unit? with
      | some unit => goOn h (.retract (.ok unit))
      | none => goOn h (.retract (.error (.compileFailed f.order.sourceId)))
    | work =>
      (work.step { self := f.self } h).map fun (h, work) =>
        (h, { f with phase := .compile token work })
  | .retract result =>
    let h := { h with registry := { registry with
      compiling := Assoc.erase name registry.compiling } }
    match result with
    | .ok unit => goOn h (.register unit)
    | .error e => goOn h (.release (.error e))
  | .register unit =>
    let (id, h) := h.registerExecution f.order unit
    goOn h (.release (.ok id))
  | .release result =>
    let h := { h with registry := { registry with
      builders := Assoc.erase name registry.builders } }
    match result with
    | .ok id => goOn h (f.found id)
    | .error e => goOn h (.done (.error (.resolution e)))
  | .start id =>
    match h.start id with
    | (.ok _, h) => goOn h (.done (.ok id))
    | (.error e, h) => goOn h (.done (.error (.spawn e)))
  | .done _ => none

/-- When a fulfilment that waits will go on without help. -/
def wakesAt? (f : Fulfilment) : Option Nat :=
  match f.phase with
  | .compile _ work => work.wakesAt?
  | _ => none

end Fulfilment

/-! ## Threads -/

namespace HostThread

/-- One move of a thread; the thread's own place in the list is not touched. -/
def step (self : ThreadId) (h : Host) (t : HostThread) : Option (Host × HostThread) :=
  match t with
  | .body id (.done ending) => some (h.finish id ending, .idle)
  | .body id work =>
    (work.step { self, execution := some id } h).map fun (h, work) => (h, .body id work)
  | .fulfilment f => (f.step h).map fun (h, f) => (h, .fulfilment f)
  | .stopAll s => (s.step h).map fun (h, s) => (h, .stopAll s)
  | .stream request s =>
    match s.phase with
    | .connecting =>
      let (s', effects) := s.step (Net.connect h.environment.connect request)
      if h.isFree s.channel then
        some (effects.foldl (Host.applyEffect s.channel s.handle) h, .stream request s')
      else none
    | _ => none
  | .idle => none

def wakesAt? : HostThread → Option Nat
  | .body _ work => work.wakesAt?
  | .fulfilment f => f.wakesAt?
  | _ => none

/-- Whether a thread only moves when the network does. -/
def isNetwork : HostThread → Bool
  | .stream .. => true
  | _ => false

end HostThread

/-- One move of a thread of the host; none while the thread has to wait. -/
def Host.step (i : ThreadId) (h : Host) : Option Host :=
  h.threads[i]? >>= fun t => (t.step i h).map fun (h, t) => { h with threads := h.threads.set i t }

end Scripting
