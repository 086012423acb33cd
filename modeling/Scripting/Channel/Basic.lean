/-
Channels: named queues of messages on a bus. A channel comes into being when it is first named.
Posting appends; on a bus with a capacity a full channel gives up its oldest message first.
-/
import Scripting.Message.Basic
import Scripting.Log

namespace Scripting

/-- A poller that may sleep on a channel. -/
abbrev PollerId := Nat

/-- A queue of messages, oldest first. -/
structure Channel where
  messages : List Message := []
  /-- The poller that holds the queue for itself. -/
  holder : Option PollerId := none
  /-- The pollers that sleep until the queue changes, the longest sleeper first. -/
  sleepers : List PollerId := []
  deriving Inhabited

namespace Channel

/-- The messages that a post of one more pushes out of a queue, and those that stay. -/
def evict (capacity : Option Nat) (messages : List Message) : List Message × List Message :=
  match capacity with
  | none => ([], messages)
  | some n =>
    let excess := messages.length + 1 - max n 1
    (messages.take excess, messages.drop excess)

/-- Appends a message and wakes the longest sleeper. Also gives the messages that are pushed out. -/
def post (capacity : Option Nat) (m : Message) (c : Channel) : List Message × Channel :=
  let (evicted, kept) := evict capacity c.messages
  (evicted, { c with messages := kept ++ [m], sleepers := c.sleepers.drop 1 })

/-- Removes the oldest message. -/
def poll (c : Channel) : Option Message × Channel :=
  (c.messages.head?, { c with messages := c.messages.drop 1 })

/-- Wakes every sleeper. -/
def wakeAll (c : Channel) : Channel := { c with sleepers := [] }

end Channel

/-- The channels by their names. -/
structure Bus where
  channels : Assoc String Channel := []
  /-- The most messages that a channel holds; at least one always fits. -/
  capacity : Option Nat := none
  deriving Inhabited

namespace Bus

/-- The channel of a name; one that has not been named yet is empty. -/
def channel (b : Bus) (name : String) : Channel := (Assoc.find? name b.channels).getD {}

def setChannel (b : Bus) (name : String) (c : Channel) : Bus :=
  { b with channels := Assoc.insert name c b.channels }

/-- Brings a channel into being. -/
def ensure (b : Bus) (name : String) : Bus := b.setChannel name (b.channel name)

def names (b : Bus) : List String := Assoc.keys b.channels

/-- The event of a message that was pushed out. -/
def evictionEvent (name : String) (m : Message) : Log.Event :=
  Log.warn "Channel full, dropping oldest message" [("channel", name), ("event", m.event)]

/-- Posts a message on a channel; one event tells of every message that it pushes out. -/
def post (b : Bus) (name : String) (m : Message) : List Log.Event × Bus :=
  let (evicted, c) := (b.channel name).post b.capacity m
  (evicted.map (evictionEvent name), b.setChannel name c)

/-- Removes the oldest message of a channel. -/
def poll (b : Bus) (name : String) : Option Message × Bus :=
  let (m, c) := (b.channel name).poll
  (m, b.setChannel name c)

def channelSummary (b : Bus) (name : String) : String :=
  Text.summary "MessageChannel"
    [("name", Text.quoted name), ("len", toString (b.channel name).messages.length)]

end Bus

end Scripting
