/-
What the traffic log tells of the token that calls carry: nothing. The token stands in one header of a request
and nowhere else (`prepare_withToken`). The line of that header is the same for every value, and all other lines
are made of what does not depend on the token; so of two calls that differ in nothing but their tokens, and are
answered alike, the reports are the same line by line.
-/
import Scripting.Proofs.Assoc
import Scripting.Proofs.Host.Events

namespace Scripting

namespace Net

/-! ## Requests that differ in an authorization -/

/-- The line of an authorization does not show its value. -/
theorem headerLine_authorization (v v' : Option String) :
    headerLine "authorization" v = headerLine "authorization" v' := rfl

/-- Requests that are the same but for the value of an authorization. -/
structure Request.AlikeBut (value value' : String) (r r' : Request) : Prop where
  method : r.method = r'.method
  url : r.url = r'.url
  headers : ∃ front back, r.headers = front ++ [("authorization", value)] ++ back ∧
    r'.headers = front ++ [("authorization", value')] ++ back
  body : r.body = r'.body
  timeout : r.timeout = r'.timeout

namespace Request.AlikeBut

variable {value value' : String} {r r' : Request}

theorem headerLines (h : AlikeBut value value' r r') :
    r.headers.map (fun h => headerLine h.1 (some h.2)) = r'.headers.map fun h => headerLine h.1 (some h.2) := by
  obtain ⟨front, back, hr, hr'⟩ := h.headers
  rw [hr, hr', List.map_append, List.map_append, List.map_append, List.map_append, List.map_singleton,
    List.map_singleton, headerLine_authorization (some value) (some value')]

theorem requestLines (h : AlikeBut value value' r r') (level : TrafficLevel) :
    requestLines level r = requestLines level r' := by
  unfold Net.requestLines
  rw [h.method, h.url, h.body, h.headerLines]

theorem exchange (h : AlikeBut value value' r r') {transport : Transport} (hsame : transport r = transport r') :
    exchange transport r = exchange transport r' := by
  unfold Net.exchange
  rw [h.url, hsame]

end Request.AlikeBut

/-! ## Calls that differ in their tokens -/

def Settings.withToken (s : Settings) (token : String) : Settings := { s with apiToken := some token }

variable {s : Settings} {c : Call} {t t' : String}

/-- With any two tokens that can be sent, a call fails in the same way before anything is sent, or it comes to
requests that differ in the token alone. -/
theorem prepare_withToken (ht : isHeaderValue (bearer t) = true) (ht' : isHeaderValue (bearer t') = true) :
    (∃ e, prepare (s.withToken t) c = .error e ∧ prepare (s.withToken t') c = .error e) ∨
      ∃ r r', prepare (s.withToken t) c = .ok r ∧ prepare (s.withToken t') c = .ok r' ∧
        Request.AlikeBut (bearer t) (bearer t') r r' := by
  have hurl (t : String) : resolveUrl (s.withToken t) c.path c.query = resolveUrl s c.path c.query := rfl
  have hvalid {t : String} (ht : isHeaderValue (bearer t) = true) :
      ((s.withToken t).apiToken.any fun t => !isHeaderValue (bearer t)) = false := by
    simp [Settings.withToken, ht]
  unfold prepare
  rw [hurl, hurl, hvalid ht, hvalid ht']
  cases resolveUrl s c.path c.query with
  | error e => exact .inl ⟨e, rfl, rfl⟩
  | ok url =>
    cases method? c.method with
    | none => exact .inl ⟨_, rfl, rfl⟩
    | some method =>
      simp only [bind, Except.bind, Bool.false_eq_true, if_false]
      cases url.host.isNone with
      | true => exact .inl ⟨_, rfl, rfl⟩
      | false =>
        -- the authorization of the URL and the type of the body stand around that of the token
        exact .inr ⟨_, _, rfl, rfl, rfl, rfl, ⟨basicAuthorization url, _, rfl, rfl⟩, rfl, rfl⟩

/-- With any two tokens for which a request is answered alike, a call is reported on in the same way. -/
theorem call_withToken {transport : Transport} {stopped : Bool} (ht : isHeaderValue (bearer t) = true)
    (ht' : isHeaderValue (bearer t') = true)
    (hsame : ∀ r r', prepare (s.withToken t) c = .ok r → prepare (s.withToken t') c = .ok r' →
      transport r = transport r') :
    call transport stopped (s.withToken t) c = call transport stopped (s.withToken t') c := by
  unfold call
  rcases prepare_withToken (s := s) (c := c) ht ht' with ⟨e, he, he'⟩ | ⟨r, r', hr, hr', halike⟩
  · rw [he, he']
  · have hlines := halike.requestLines s.logLevel
    have hexchange := halike.exchange (hsame r r' hr hr')
    rw [hr, hr']
    simp only [hexchange, halike.method, halike.url]
    exact congrArg (fun lines => (⟨lines.map .line ++ _, _⟩ : Report)) hlines

namespace Preferences

theorem getString_set_of_ne (p : Preferences) {key key' : String} (hne : key' ≠ key) (value : String) :
    (p.set key value).getString key' = p.getString key' :=
  Assoc.find?_insert_of_ne hne value p

end Preferences

/-- A new token changes nothing else of the settings. -/
theorem Settings.read_set_apiToken (p : Preferences) {t : String} (ht : Text.isAllBlank t = false) :
    Settings.read (p.set Key.apiToken t) = ((Settings.read p).1, (Settings.read p).2.withToken t) := by
  have hother (key : String) (hne : key ≠ Key.apiToken) :
      (p.set Key.apiToken t).getString key = p.getString key := p.getString_set_of_ne hne t
  have hmillis (key : String) (hne : key ≠ Key.apiToken) (default : Nat) :
      millis (p.set Key.apiToken t) key default = millis p key default := by
    unfold millis Preferences.getLong
    rw [hother key hne]
  have hbase : nonBlank (p.set Key.apiToken t) Key.baseUrl = nonBlank p Key.baseUrl := by
    unfold nonBlank
    rw [hother _ (by decide)]
  have htoken : nonBlank (p.set Key.apiToken t) Key.apiToken = some t := by
    have hset : (p.set Key.apiToken t).getString Key.apiToken = some t := Assoc.find?_insert_self _ _ _
    unfold nonBlank
    rw [hset, Option.filter_some, ht]
    rfl
  unfold Settings.read
  rw [hother Key.logLevel (by decide), hbase, htoken, hmillis Key.connectTimeout (by decide),
    hmillis Key.readTimeout (by decide), hmillis Key.writeTimeout (by decide), hmillis Key.streamTimeout (by decide)]
  rfl

end Net

/-! ## What the host keeps -/

namespace Host

open Net

/-- A host whose calls carry a token. -/
def withToken (h : Host) (t : String) : Host :=
  { h with client := { h.client with preferences := h.client.preferences.set Key.apiToken t } }

theorem report_cons (h : Host) (x : Trace) (rest : List Trace) :
    h.report (x :: rest) = (h.report [x]).report rest := rfl

/-- What is reported goes to the same places with any token. -/
theorem report_withToken (h : Host) (t : String) (trace : List Trace) :
    (h.withToken t).report trace = (h.report trace).withToken t := by
  induction trace generalizing h with
  | nil => rfl
  | cons x rest ih =>
    have hfirst : (h.withToken t).report [x] = (h.report [x]).withToken t := by
      cases x with
      | event e => rfl
      | line s =>
        unfold report
        rw [List.foldl_cons, List.foldl_cons, List.foldl_nil, List.foldl_nil]
        simp only [show (h.withToken t).traffic = h.traffic from rfl]
        cases h.traffic with
        | none => rfl
        | some lines => rfl
    rw [report_cons, hfirst, ih, ← report_cons]

variable {h : Host} {token : Option TokenId} {c : Call} {t t' : String}

theorem settings_withToken (ht : Text.isAllBlank t = false) :
    (h.withToken t).settings = (h.settings.1.withToken t, h.settings.2.withToken t) := by
  have hread := Settings.read_set_apiToken h.client.preferences ht
  unfold settings withToken
  simp only [hread]
  rfl

theorem request_withToken (ht : Text.isAllBlank t = false) : (h.withToken t).request token c =
    let report := call h.environment.transport (token.any h.isStopped) (h.settings.1.withToken t) c
    (report.result, (h.settings.2.report report.trace).withToken t) := by
  unfold request
  rw [settings_withToken ht]
  simp only [report_withToken]
  rfl

/-- Two calls that differ in nothing but their tokens, both of which can be sent, and that are answered alike:
the same lines go to the traffic log and the same events to the log, and both calls have the same result. -/
theorem traffic_hides_token (h : Host) (token : Option TokenId) (c : Call) (t t' : String)
    (ht : Text.isAllBlank t = false) (ht' : Text.isAllBlank t' = false)
    (hvalid : isHeaderValue (bearer t) = true) (hvalid' : isHeaderValue (bearer t') = true)
    (hsame : ∀ r r', prepare (h.withToken t).settings.1 c = .ok r → prepare (h.withToken t').settings.1 c = .ok r' →
      h.environment.transport r = h.environment.transport r') :
    ((h.withToken t).request token c).2.traffic = ((h.withToken t').request token c).2.traffic ∧
      ((h.withToken t).request token c).2.log = ((h.withToken t').request token c).2.log ∧
      ((h.withToken t).request token c).1 = ((h.withToken t').request token c).1 := by
  rw [settings_withToken ht, settings_withToken ht'] at hsame
  have hcall : call h.environment.transport (token.any h.isStopped) (h.settings.1.withToken t) c =
      call h.environment.transport (token.any h.isStopped) (h.settings.1.withToken t') c :=
    call_withToken hvalid hvalid' hsame
  rw [request_withToken ht, request_withToken ht', hcall]
  exact ⟨rfl, rfl, rfl⟩

/-- A host that keeps the lines of its traffic, with the headers, and for which every request is answered. -/
def keeper : Host :=
  { plain with
    environment := { plain.environment with transport := fun _ => .ok { code := 200 } }
    traffic := some []
    client := { preferences := [(Key.baseUrl, "http://h"), (Key.logLevel, "headers")] } }

def visit : Call := { method := "get", path := "x" }

/-- The requests that are sent carry different tokens, and their lines are the same. -/
theorem visit_hides_token :
    (prepare (keeper.withToken "alpha").settings.1 visit).toOption.map (·.headers) =
        some [("authorization", "Bearer alpha")] ∧
      (prepare (keeper.withToken "beta").settings.1 visit).toOption.map (·.headers) =
        some [("authorization", "Bearer beta")] ∧
      ((keeper.withToken "alpha").request none visit).2.traffic =
        ((keeper.withToken "beta").request none visit).2.traffic := by
  have hhidden := traffic_hides_token keeper none visit "alpha" "beta" (by decide) (by decide) (by decide) (by decide)
    fun _ _ _ _ => rfl
  exact ⟨by decide +kernel, by decide +kernel, hhidden.1⟩

example : ((keeper.withToken "alpha").request none visit).2.traffic =
    some ["--> GET http://h/x", "authorization: ██", "--> END GET", "<-- 200 http://h/x (0ms)", "<-- END HTTP"] := by
  decide +kernel

end Host

end Scripting
