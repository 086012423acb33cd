/-
Preferences: texts under dotted keys, and the settings of a network call that are read from them. A
timeout that is no positive number of milliseconds, and a text that is blank, count as not set.
-/
import Scripting.Assoc
import Scripting.Log
import Scripting.Number.Width
import Scripting.Text.Blank

namespace Scripting.Net

/-- Texts under their keys. -/
abbrev Preferences := Assoc String String

/-- The decimal integer of a text, with or without a sign. -/
def readInt? (s : String) : Option Int :=
  let (negative, digits) := match s.toList with
    | '-' :: rest => (true, rest)
    | '+' :: rest => (false, rest)
    | cs => (false, cs)
  if digits.isEmpty || !digits.all Char.isDigit then none
  else
    let n : Int := digits.foldl (fun n c => n * 10 + (c.toNat - '0'.toNat)) 0
    some (if negative then -n else n)

/-- The integer of 64 bits of a text. -/
def readInt64? (s : String) : Option Int64 := readInt? s >>= int64?

namespace Preferences

def getString (p : Preferences) (key : String) : Option String := Assoc.find? key p

/-- The integer under a key; blanks around it do not count. -/
def getLong (p : Preferences) (key : String) : Option Int64 :=
  p.getString key >>= fun s => readInt64? (Text.trim s)

def set (p : Preferences) (key value : String) : Preferences := Assoc.insert key value p

def remove (p : Preferences) (key : String) : Preferences := Assoc.erase key p

end Preferences

/-- How much of the traffic is logged. -/
inductive TrafficLevel where
  | off
  /-- The lines of requests and responses. -/
  | basic
  /-- And the headers. -/
  | headers
  /-- And the bodies. -/
  | body
  deriving DecidableEq, Inhabited

namespace TrafficLevel

def name : TrafficLevel → String
  | .off => "NONE"
  | .basic => "BASIC"
  | .headers => "HEADERS"
  | .body => "BODY"

def rank : TrafficLevel → Nat
  | .off => 0
  | .basic => 1
  | .headers => 2
  | .body => 3

/-- Whether a level logs all that another does. -/
def includes (l : TrafficLevel) (other : TrafficLevel) : Bool := other.rank ≤ l.rank

def all : List TrafficLevel := [.off, .basic, .headers, .body]

/-- The level of a text in any letters; the error is what was read. -/
def read (s : String) : Except String TrafficLevel :=
  let word := Text.upper (Text.trim s)
  if word.isEmpty then .ok .off
  else match all.find? (·.name == word) with
    | some l => .ok l
    | none => .error s!"unknown log level {word}"

end TrafficLevel

namespace Key

def baseUrl := "net.base_url"
def apiToken := "net.api_token"
def connectTimeout := "net.connect_timeout_ms"
def readTimeout := "net.read_timeout_ms"
def writeTimeout := "net.write_timeout_ms"
def streamTimeout := "net.websocket_call_timeout_ms"
def logLevel := "net.log_level"

end Key

/-- The settings of one call; timeouts are in milliseconds. -/
structure Settings where
  baseUrl : Option String := none
  apiToken : Option String := none
  connectTimeout : Nat := 5000
  readTimeout : Nat := 5000
  writeTimeout : Nat := 5000
  streamTimeout : Nat := 10000
  logLevel : TrafficLevel := .off
  deriving DecidableEq, Inhabited

namespace Settings

/-- A positive number of milliseconds under a key, or a default. -/
def millis (p : Preferences) (key : String) (default : Nat) : Nat :=
  match p.getLong key with
  | some i => if 0 < i then i.toNatClampNeg else default
  | none => default

/-- A text under a key that is not blank. -/
def nonBlank (p : Preferences) (key : String) : Option String :=
  (p.getString key).filter fun s => !Text.isAllBlank s

/-- The settings of the preferences, and the events of reading them. -/
def read (p : Preferences) : List Log.Event × Settings :=
  let (events, logLevel) := match p.getString Key.logLevel with
    | none => ([], TrafficLevel.off)
    | some s =>
      match TrafficLevel.read s with
      | .ok l => ([], l)
      | .error _ => ([Log.warn ("Ignoring invalid " ++ Key.logLevel) []], .off)
  (events, {
    baseUrl := nonBlank p Key.baseUrl
    apiToken := nonBlank p Key.apiToken
    connectTimeout := millis p Key.connectTimeout 5000
    readTimeout := millis p Key.readTimeout 5000
    writeTimeout := millis p Key.writeTimeout 5000
    streamTimeout := millis p Key.streamTimeout 10000
    logLevel })

end Settings

end Scripting.Net
