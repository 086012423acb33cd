/-
The host: the bus, the network client, the stop tokens, the executions and their registry, and the
threads that work on them. A thread is a list of moves that no other thread can come between, and the
host says what each move does.
-/
import Scripting.Registry.Basic
import Scripting.Channel.Poll
import Scripting.Net.Stream

namespace Scripting

/-- What the host takes from its surroundings. -/
structure Environment where
  resolve : Resolver
  compile : Compiler
  /-- The shapes of the records that scripts see. -/
  shapes : Shapes := []
  transport : Net.Transport := Net.Transport.offline
  connect : Net.Connector := Net.Connector.offline
  /-- Why a thread for an execution cannot be started, where it cannot. -/
  spawnFailure : String → Option String := fun _ => none

/-- A routine on its way: going on, waiting for a message, or through. -/
inductive Activity (α : Type) where
  | going (p : Routine α)
  | polling (poll : Poll) (resume : Option Message → Routine α)
  | done (a : α)

/-- Where an order stands. -/
inductive Fulfilment.Phase where
  /-- About to look for a running execution. -/
  | lookUp
  /-- About to become the one builder for the thread name. -/
  | wantBuild
  /-- Builder; about to look again, as another may have built meanwhile. -/
  | lookAgain
  /-- About to enter a stop token for the build. -/
  | announce
  /-- About to look for the sources. -/
  | resolve (token : TokenId)
  | compile (token : TokenId) (work : Activity (Option ExecutableUnit))
  /-- About to take the stop token out again. -/
  | retract (result : Except ResolutionError ExecutableUnit)
  /-- About to register a new execution of the unit. -/
  | register (unit : ExecutableUnit)
  /-- About to let others build. -/
  | release (result : Except ResolutionError ExecutionId)
  /-- About to start the execution. -/
  | start (id : ExecutionId)
  | done (result : Except OrderError ExecutionId)

/-- The fulfilment of an order by a thread. -/
structure Fulfilment where
  self : ThreadId
  order : Order
  /-- Whether the execution is also started. -/
  starts : Bool
  phase : Fulfilment.Phase := .lookUp

/-- Where a stop request on one token stands. -/
inductive StopRequest.Phase where
  /-- About to raise the flag. -/
  | start
  /-- The flag was down before; about to list the wakers. -/
  | raised
  /-- About to run the first of these wakers. -/
  | waking (left : List WokenChannel)
  | done
  deriving DecidableEq, Inhabited

structure StopRequest where
  token : TokenId
  phase : StopRequest.Phase := .start
  deriving DecidableEq, Inhabited

/-- Where a request to stop everything stands. -/
inductive StopAll where
  /-- About to list the registered executions. -/
  | start
  /-- About to list the tokens of what is being made ready. -/
  | listed (executions : List ExecutionId)
  /-- About to stop these tokens, one after the other. -/
  | stopping (current : StopRequest) (left : List TokenId)
  | done
  deriving Inhabited

/-- What a thread of the host is doing. -/
inductive HostThread where
  /-- It runs the body of an execution. -/
  | body (id : ExecutionId) (work : Activity Ending)
  | fulfilment (f : Fulfilment)
  | stopAll (s : StopAll)
  /-- It serves a stream, which is asked for by a request. -/
  | stream (request : Net.StreamRequest) (s : Net.Stream)
  | idle

structure Host where
  environment : Environment
  /-- The time, in milliseconds. -/
  clock : Nat := 0
  /-- The events so far, oldest first. -/
  log : List Log.Event := []
  /-- The lines of the traffic log, where they are kept apart from the events. -/
  traffic : Option (List String) := none
  bus : Bus := {}
  client : Net.Client := {}
  tokens : List (StopToken WokenChannel) := []
  executions : List Execution := []
  registry : Registry := {}
  threads : List HostThread := []

namespace Host

def logged (h : Host) (events : List Log.Event) : Host := { h with log := h.log ++ events }

/-! ## Stop tokens -/

/-- A new token, whose flag is down. -/
def newToken (h : Host) : TokenId × Host :=
  (h.tokens.length, { h with tokens := h.tokens ++ [{}] })

def token? (h : Host) (t : TokenId) : Option (StopToken WokenChannel) := h.tokens[t]?

def setToken (h : Host) (t : TokenId) (s : StopToken WokenChannel) : Host :=
  { h with tokens := h.tokens.set t s }

def isStopped (h : Host) (t : TokenId) : Bool := (h.token? t).any (·.stopped)

/-! ## Executions -/

def execution? (h : Host) (id : ExecutionId) : Option Execution := h.executions[id]?

def setExecution (h : Host) (id : ExecutionId) (e : Execution) : Host :=
  { h with executions := h.executions.set id e }

/-- The registered execution of a thread name. -/
def registered? (h : Host) (threadName : String) : Option ExecutionId :=
  Assoc.find? threadName h.registry.entries

/-- The registered execution of a thread name, if it runs. -/
def live? (h : Host) (threadName : String) : Option ExecutionId :=
  (h.registered? threadName).filter fun id => (h.execution? id).any (·.isRunning)

/-- Whether an execution may still go on. -/
def keepsRunning (h : Host) (e : Execution) : Bool := !h.isStopped e.token

/-! ## The bus -/

/-- Whether nobody holds the queue of a channel. -/
def isFree (h : Host) (channel : String) : Bool := (h.bus.channel channel).holder.isNone

/-- Posts a message that is stamped with the time. -/
def post (h : Host) (channel event : String) (params : Option String) : Host :=
  let (events, bus) := h.bus.post channel ⟨⟨h.clock⟩, event, params⟩
  { h with bus }.logged events

/-! ## The network -/

/-- Reports on an exchange: the lines go to the traffic log, or become events where none is kept. -/
def report (h : Host) (trace : List Net.Trace) : Host :=
  trace.foldl (fun h t =>
    match t with
    | .event e => h.logged [e]
    | .line s =>
      match h.traffic with
      | some lines => { h with traffic := some (lines ++ [s]) }
      | none => h.logged [Log.info s]) h

/-- The settings of a network call. -/
def settings (h : Host) : Net.Settings × Host :=
  let (events, s) := Net.Settings.read h.client.preferences
  (s, h.logged events)

/-- Makes a call, which is given up if the token says so. -/
def request (h : Host) (token : Option TokenId) (c : Net.Call) :
    Except Net.NetError Net.Response × Host :=
  let (s, h) := h.settings
  let r := Net.call h.environment.transport (token.any h.isStopped) s c
  (r.result, h.report r.trace)

/-- Opens a stream and leaves it to a thread of its own. -/
def openStream (h : Host) (c : Net.StreamCall) : Except Net.NetError UInt32 × Host :=
  let (s, h) := h.settings
  match Net.prepareStream s c with
  | .error e => (.error e, h)
  | .ok request =>
    let (handle, client) := h.client.register
    (.ok handle,
      { h with client, threads := h.threads ++ [.stream request { handle, channel := c.channel }] })

def fulfilWish (h : Host) (handle : UInt32) (w : Net.Wish) : Bool × Host :=
  let (r, connections) := h.client.connections.fulfil handle w
  (r, { h with client := { h.client with connections } })

/-- Does what a stream wants done. -/
def applyEffect (channel : String) (handle : UInt32) (h : Host) (e : Net.Stream.Effect) : Host :=
  match e with
  | .forget => { h with client := h.client.forget handle }
  | .post event params => h.post channel event (some params.text)
  | .log e => h.logged [e]

end Host

end Scripting
