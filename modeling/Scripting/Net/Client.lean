/-
HTTP calls. A call is made ready from the settings, handed to a transport, and reported on: the lines
of the traffic log, the events and the answer are functions of the request and of what the transport
gave. The value of an authorization header never reaches a line.
-/
import Scripting.Net.Basic
import Scripting.Net.Preferences
import Scripting.Url.Parser

namespace Scripting.Net

/-- A request that is ready to be sent. -/
structure Request where
  method : String
  url : Url
  headers : List (String × String) := []
  body : Option String := none
  /-- The milliseconds that the whole exchange may take. -/
  timeout : Nat
  deriving DecidableEq, Inhabited

/-- What came back: a header whose value is no plain text has none. -/
structure Received where
  code : Nat
  headers : List (String × Option String) := []
  body : String := ""
  deriving DecidableEq, Inhabited

/-- Sends a request; the error is the text of a failure. -/
abbrev Transport := Request → Except String Received

/-! ## Making a request ready -/

def trimStartSlashes (s : String) : String := String.ofList (s.toList.dropWhile (· == '/'))

def trimEndSlashes (s : String) : String :=
  String.ofList (s.toList.reverse.dropWhile (· == '/')).reverse

/-- The URL of a path below the base URL, with a query that is encoded already. -/
def resolveUrl (s : Settings) (path : String) (query : Option String) : Except NetError Url :=
  match s.baseUrl with
  | none => .error (.configuration "base URL is not set")
  | some base =>
    match Url.parse base with
    | .error e => .error (.configuration s!"invalid base URL {base}: {e.message}")
    | .ok u =>
      if u.cannotBeBase then .error (.configuration s!"invalid base URL {base}")
      else
        let joined := trimEndSlashes u.path.text ++ "/" ++ trimStartSlashes path
        .ok ((u.setPath joined).setQuery (query.filter (!·.isEmpty)))

/-- Whether a character may stand in the name of a method. -/
def isMethodChar (c : Char) : Bool :=
  c.isAlphanum || "!#$%&'*+-.^_|~".toList.contains c || c.toNat == 0x60

/-- The method of a text in any letters. -/
def method? (s : String) : Option String :=
  let m := Text.upper (Text.trim s)
  if !m.isEmpty && m.toList.all isMethodChar then some m else none

/-- Whether a text may be the value of a header. -/
def isHeaderValue (s : String) : Bool :=
  s.toList.all fun c => c == '\t' || (0x20 ≤ c.toNat && c.toNat != 0x7f)

def base64Digit (n : Nat) : Char :=
  if n < 26 then Char.ofNat (65 + n)
  else if n < 52 then Char.ofNat (71 + n)
  else if n < 62 then Char.ofNat (n - 4)
  else if n = 62 then '+' else '/'

/-- Bytes in base 64. -/
def base64 : List UInt8 → List Char
  | [] => []
  | [a] => [base64Digit (a.toNat / 4), base64Digit (a.toNat % 4 * 16), '=', '=']
  | [a, b] =>
    [base64Digit (a.toNat / 4), base64Digit (a.toNat % 4 * 16 + b.toNat / 16),
      base64Digit (b.toNat % 16 * 4), '=']
  | a :: b :: c :: rest =>
    base64Digit (a.toNat / 4) :: base64Digit (a.toNat % 4 * 16 + b.toNat / 16) ::
      base64Digit (b.toNat % 16 * 4 + c.toNat / 64) :: base64Digit (c.toNat % 64) :: base64 rest

/-- The authorization of the name and password of a URL. -/
def basicAuthorization (u : Url) : List (String × String) :=
  if u.username.isEmpty && u.password.isNone then []
  else
    let bytes := Url.percentDecoded u.username.toList ++ [0x3a] ++
      Url.percentDecoded (u.password.getD "").toList
    [("authorization", "Basic " ++ String.ofList (base64 bytes))]

def bearer (token : String) : String := "Bearer " ++ token

/-- The request of a call. -/
def prepare (s : Settings) (c : Call) : Except NetError Request := do
  let url ← resolveUrl s c.path c.query
  let method ← match method? c.method with
    | some m => .ok m
    | none => .error (.invalidRequest s!"unsupported method: {c.method}")
  if url.host.isNone then
    throw (.invalidRequest s!"builder error for url ({url.text})")
  if s.apiToken.any fun t => !isHeaderValue (bearer t) then
    throw (.invalidRequest "builder error")
  let body := c.body.filter fun b => !Text.isAllBlank b
  let token := (s.apiToken.map fun t => ("authorization", bearer t)).toList
  let contentType := (body.map fun _ => ("content-type", "application/json; charset=utf-8")).toList
  let timeout := match c.timeout with
    | some (n + 1) => n + 1
    | _ => s.connectTimeout + s.readTimeout + s.writeTimeout
  return {
    method, url := url.withoutUserinfo, body, timeout
    headers := basicAuthorization url ++ token ++ contentType }

/-! ## The traffic log -/

/-- What is put in the place of an authorization. -/
def mask : String := "██"

/-- The line of a header. -/
def headerLine (name : String) (value : Option String) : String :=
  name ++ ": " ++ if name == "authorization" then mask else value.getD "<binary>"

def requestLines (level : TrafficLevel) (r : Request) : List String :=
  if level = .off then []
  else
    [s!"--> {r.method} {r.url.text}"] ++
      (if level.includes .headers then r.headers.map fun h => headerLine h.1 (some h.2) else []) ++
      (if level.includes .body then r.body.toList else []) ++
      [s!"--> END {r.method}"]

/-- Headers in the order of their first places, those of one name together. -/
def groupHeaders : List (String × Option String) → List (String × Option String) :=
  List.foldl (fun out h =>
    match (out.reverse.span (·.1 != h.1)) with
    | (_, []) => out ++ [h]
    | (behind, front) => front.reverse ++ [h] ++ behind.reverse) []

def responseLines (level : TrafficLevel) (url : Url) (r : Received) (elapsed : Nat) : List String :=
  if level = .off then []
  else
    [s!"<-- {r.code} {url.text} ({elapsed}ms)"] ++
      (if level.includes .headers then
        (groupHeaders r.headers).map fun h => headerLine h.1 h.2 else []) ++
      (if level.includes .body && !r.body.isEmpty then [r.body] else []) ++
      ["<-- END HTTP"]

/-- One entry of the report on an exchange. -/
inductive Trace where
  | line (text : String)
  | event (e : Log.Event)
  deriving DecidableEq

/-- What is told of the end of an exchange. -/
def resultTrace (level : TrafficLevel) (method : String) (url : Url) (elapsed : Nat)
    (result : Except NetError Received) : List Trace :=
  match result with
  | .ok r => (responseLines level url r elapsed).map .line
  | .error .interrupted => []
  | .error e =>
    .event (Log.warn "Request failed" [("method", method)]) ::
      if level.includes .basic then [.line s!"<-- HTTP FAILED: {e.message}"] else []

/-! ## Exchanges -/

/-- Sends a request over a transport, which only takes the two schemes of the web. -/
def exchange (transport : Transport) (r : Request) : Except NetError Received :=
  if r.url.scheme == "http" || r.url.scheme == "https" then
    (transport r).mapError .network
  else .error (.invalidRequest s!"builder error for url ({r.url.text})")

/-- The answer to a call and the report on it. -/
structure Report where
  trace : List Trace
  result : Except NetError Response

/-- Makes a call. One that was asked to stop is given up once it has been sent. -/
def call (transport : Transport) (stopped : Bool) (s : Settings) (c : Call) : Report :=
  match prepare s c with
  | .error e => ⟨[], .error e⟩
  | .ok r =>
    let result := if stopped then .error .interrupted else exchange transport r
    let shown := (resolveUrl s c.path c.query).toOption.getD r.url
    { trace := (requestLines s.logLevel r).map .line ++
        resultTrace s.logLevel r.method shown 0 result
      result := result.map fun r => ⟨r.code, r.body⟩ }

/-- The transport of a host without a network. -/
def Transport.offline : Transport := fun r =>
  .error s!"error sending request for url ({r.url.text})"

end Scripting.Net
