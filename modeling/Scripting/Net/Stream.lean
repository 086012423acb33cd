/-
Streams: connections that carry text both ways. A stream tells its channel when it is open, of every
text it receives, and last that it is closed or has failed; its handle is forgotten before that last
message is posted. What scripts send waits in the connection's queue; a send that finds its connection
closing queues nothing.
-/
import Scripting.Net.Client
import Scripting.Message.Basic
import Scripting.Text.Utf8

namespace Scripting.Net

/-- What waits to be sent on a connection. -/
inductive Outbound where
  | text (s : String)
  | close (code : UInt16) (reason : String)
  deriving DecidableEq, Inhabited

structure Connection where
  /-- What waits to be sent, oldest first. -/
  outbound : List Outbound := []
  /-- Whether its close was asked for. -/
  closing : Bool := false
  deriving DecidableEq, Inhabited

/-- The connections by their handles. -/
abbrev Connections := Assoc UInt32 Connection

/-! ## Sending and closing -/

/-- What a script wants of a connection. -/
inductive Wish where
  | send (text : String)
  | close (code : UInt16) (reason : String)
  deriving DecidableEq, Inhabited

/-- Where the fulfilment of a wish stands. -/
inductive Wish.Phase where
  | start
  /-- The connection is there; next comes the look at its mark of closing, which a close also sets. -/
  | found
  /-- Next the wish joins the queue. -/
  | allowed
  | done (accepted : Bool)
  deriving DecidableEq, Inhabited

/-- The wish as it waits on a connection. -/
def Wish.outbound : Wish → Outbound
  | .send text => .text text
  | .close code reason => .close code reason

/-- One move towards a wish on the connection of a handle, which no other thread can come between. -/
def Wish.step (w : Wish) (handle : UInt32) (cs : Connections) (p : Wish.Phase) :
    Connections × Wish.Phase :=
  match p, Assoc.find? handle cs with
  | .done r, _ => (cs, .done r)
  | _, none => (cs, .done false)
  | .start, some _ => (cs, .found)
  | .found, some c =>
    match w with
    | .send _ => (cs, if c.closing then .done false else .allowed)
    | .close .. =>
      (Assoc.insert handle { c with closing := true } cs, if c.closing then .done true else .allowed)
  | .allowed, some c =>
    (Assoc.insert handle { c with outbound := c.outbound ++ [w.outbound] } cs, .done true)

/-- Takes the oldest thing that waits on a connection. -/
def Connections.takeOutbound (cs : Connections) (handle : UInt32) : Option (Outbound × Connections) :=
  match Assoc.find? handle cs with
  | some { outbound := o :: rest, closing } =>
    some (o, Assoc.insert handle { outbound := rest, closing } cs)
  | _ => none

/-- Fulfils a wish without anything coming between, and tells whether it was accepted. -/
def Connections.fulfil (cs : Connections) (handle : UInt32) (w : Wish) : Bool × Connections :=
  let (cs, p) := w.step handle cs .start
  let (cs, p) := w.step handle cs p
  let (cs, p) := w.step handle cs p
  match p with
  | .done r => (r, cs)
  | _ => (false, cs)

/-! ## The life of a stream -/

inductive Frame where
  | text (s : String)
  | binary (bytes : List UInt8)
  /-- The other side closes, perhaps with a code and a reason. -/
  | close (code : Option (UInt16 × String))
  /-- A frame that scripts are not told of. -/
  | control

/-- What happens to a stream. -/
inductive Stream.Input where
  | connected
  | connectFailed (text : String)
  | frame (f : Frame)
  | broken (text : String)
  /-- The other side has nothing more to send. -/
  | ended
  /-- The oldest thing that waited was sent, or could not be. -/
  | sent (failure : Option String)
  /-- A ping was sent, or could not be. -/
  | pinged (failure : Option String)

/-- Where a stream stands. -/
inductive Stream.Phase where
  | connecting
  /-- Open; the last close of the other side is kept. -/
  | open (lastClose : Option (UInt16 × String))
  | finished
  deriving DecidableEq, Inhabited

structure Stream where
  handle : UInt32
  channel : String
  phase : Stream.Phase := .connecting
  deriving DecidableEq, Inhabited

/-- What a stream does to the rest of the host, in order. -/
inductive Stream.Effect where
  | forget
  | post (event : String) (params : Json)
  | log (e : Log.Event)

namespace Stream

def normalClosure : UInt16 := 1000

/-- The code that stands for a close without one. -/
def noStatus : UInt16 := 1005

def handleJson (s : Stream) : Json := .int s.handle.toNat

def closeParams (s : Stream) (code : UInt16) (reason : String) : Json :=
  Json.ofMembers [("code", .int code.toNat), ("reason", .string reason), ("handle", s.handleJson)]

def opened (s : Stream) : List Effect :=
  [.post "websocket_open" (Json.ofMembers [("handle", s.handleJson)])]

def received (s : Stream) (text : String) : List Effect :=
  [.post "websocket_message"
    (Json.ofMembers [("handle", s.handleJson), ("message", .string text)])]

def closing (s : Stream) (code : UInt16) (reason : String) : List Effect :=
  [.post "websocket_closing" (s.closeParams code reason)]

def closed (s : Stream) (code : UInt16) (reason : String) : List Effect :=
  [.forget, .post "websocket_closed" (s.closeParams code reason)]

def failed (s : Stream) (text : String) : List Effect :=
  [.log (Log.warn "WebSocket failure" [("channel", s.channel)]), .forget,
    .post "websocket_failure"
      (Json.ofMembers [("message", .string text), ("handle", s.handleJson)])]

/-- Ends a stream. -/
def finish (s : Stream) (effects : List Effect) : Stream × List Effect :=
  ({ s with phase := .finished }, effects)

/-- What one input does. A stream that is not connected only hears how connecting went, and a finished
one hears nothing. -/
def step (s : Stream) (i : Input) : Stream × List Effect :=
  match s.phase, i with
  | .connecting, .connected => ({ s with phase := .open none }, s.opened)
  | .connecting, .connectFailed text => s.finish (s.failed text)
  | .open _, .frame (.text text) => (s, s.received text)
  | .open _, .frame (.binary bytes) => (s, s.received (Text.ofBytes bytes))
  | .open _, .frame (.close frame) =>
    let (code, reason) := frame.getD (noStatus, "")
    ({ s with phase := .open (some (code, reason)) }, s.closing code reason)
  | .open _, .broken text => s.finish (s.failed text)
  | .open lastClose, .ended =>
    let (code, reason) := lastClose.getD (normalClosure, "")
    s.finish (s.closed code reason)
  | .open _, .sent (some text) => s.finish (s.failed text)
  | .open _, .pinged (some text) => s.finish (s.failed text)
  | _, _ => (s, [])

end Stream

/-! ## Opening a stream -/

/-- What is asked of the network to open a stream. -/
structure StreamRequest where
  url : Url
  apiToken : Option String := none
  connectTimeout : Nat
  ping : Option Nat := none
  deriving DecidableEq, Inhabited

/-- Connects; the error is the text of a failure. -/
abbrev Connector := StreamRequest → Except String Unit

/-- The URL of a stream in the place of the URL of a page. -/
def streamUrl (u : Url) : Except NetError Url :=
  match u.scheme with
  | "http" => .ok { u with scheme := "ws" }
  | "ws" => .ok u
  | "https" => .ok { u with scheme := "wss" }
  | "wss" => .ok u
  | other => .error (.configuration s!"unsupported scheme for streams: {other}")

/-- The request of a stream. -/
def prepareStream (s : Settings) (c : StreamCall) : Except NetError StreamRequest := do
  let url ← streamUrl (← resolveUrl s c.path c.query)
  return { url, apiToken := s.apiToken, connectTimeout := s.streamTimeout
           ping := c.ping.filter (0 < ·) }

/-- Connects over a connector, if the token may stand in a header. -/
def connect (connector : Connector) (r : StreamRequest) : Stream.Input :=
  if r.apiToken.any fun t => !isHeaderValue (bearer t) then
    .connectFailed "failed to parse header value"
  else match connector r with
    | .ok () => .connected
    | .error text => .connectFailed text

/-- Whether a host is an address and no name that would have to be looked up. -/
def isAddress (host : String) : Bool :=
  host.startsWith "[" || host == "localhost" || Url.endsInNumber host.toList

/-- The connector of a host without a network. -/
def Connector.offline : Connector := fun r =>
  .error <| "IO error: " ++
    if (r.url.host.getD "") |> isAddress then "Network is unreachable (os error 101)"
    else "failed to lookup address information: Temporary failure in name resolution"

/-! ## The client -/

/-- The network side of a host. -/
structure Client where
  preferences : Preferences := []
  connections : Connections := []
  /-- The handle that the next stream gets. -/
  nextHandle : UInt32 := 1
  deriving Inhabited

/-- Gives out a handle and enters its connection. Handles are counted up, and start again at zero
behind the last. -/
def Client.register (c : Client) : UInt32 × Client :=
  (c.nextHandle, { c with
    connections := Assoc.insert c.nextHandle {} c.connections
    nextHandle := c.nextHandle + 1 })

def Client.forget (c : Client) (handle : UInt32) : Client :=
  { c with connections := Assoc.erase handle c.connections }

/-- The handles of the connections, ascending. -/
def Client.openHandles (c : Client) : List UInt32 := Assoc.keys c.connections

end Scripting.Net
