/-
Where calls and streams go. Whatever path and query a script gives, a call goes to the host and port of the base URL
with its scheme, and a stream with the scheme of streams in its place. The script's path is followed from the path of
the base URL, where its double dots lead above that path as they lead above any other place; so the path begins with
that of the base URL exactly if the script's path names again what it has left of it (`keeps_to_endpoint`).
-/
import Scripting.Net.Stream
import Scripting.Proofs.Url.Path

namespace Scripting.Net

variable {s : Settings} {u url : Url} {path : String} {query : Option String}

/-! ## Paths from a base -/

/-- The parts of the path of a base URL, up to the slashes at its end. -/
def stem (u : Url) : List String :=
  match u.path with
  | .whole _ => []
  | .segments parts => parts.rdropWhile (· == "")

/-- The parts of a script's path as they stand in a URL, with the dots. -/
def scriptParts (u : Url) (path : String) : List String :=
  Url.writtenParts u.isSpecial ((trimStartSlashes path).toList.filter (!Url.isIgnored ·))

/-- Where a script's path leads from the path of a base URL. -/
def scriptRoute (u : Url) (path : String) : Route := Url.route (scriptParts u path)

/-- A URL that a script's path leads to from a base URL, on the host and port of that. -/
structure LeadsFrom (u : Url) (path : String) (url : Url) : Prop where
  host : url.host = u.host
  port : url.port = u.port
  path : url.path = .segments ((scriptRoute u path).target (stem u))

/-- The path of a URL begins with that of a base URL, without the slashes at its end, and a slash. -/
def IsBelow (u url : Url) : Prop := url.path.text.startsWith (trimEndSlashes u.path.text ++ "/") = true

instance : Decidable (IsBelow u url) := inferInstanceAs (Decidable (_ = true))

theorem isSettled_of_mem_stem (hu : u.HasSettledPath) : ∀ part ∈ stem u, Url.IsSettled u.isSpecial part := by
  intro part hpart
  unfold stem at hpart
  split at hpart
  · cases hpart
  · rename_i parts hparts
    exact hu parts hparts part ((List.rdropWhile_prefix _ _).subset hpart)

/-- The path of a base URL without the slashes at its end. -/
theorem toList_trimEndSlashes (hu : u.HasSettledPath) (hlevels : u.cannotBeBase = false) :
    (trimEndSlashes u.path.text).toList = Url.written (stem u) := by
  have htrim (text : String) : (trimEndSlashes text).toList = text.toList.rdropWhile (· == '/') := String.toList_ofList
  rw [htrim]
  unfold stem
  split
  · rename_i text htext
    unfold Url.cannotBeBase at hlevels
    rw [htext] at hlevels
    cases hlevels
  · rename_i parts hparts
    rw [hparts, Url.toList_text, Url.rdropWhile_written (hu parts hparts)]

/-- A path stays below that of the base URL exactly if it names again what it has left of it. -/
theorem isBelow_iff (hu : u.HasSettledPath) (hlevels : u.cannotBeBase = false) (h : LeadsFrom u path url) :
    IsBelow u url ↔ ∃ rest, rest ≠ [] ∧
      (scriptRoute u path).down = (stem u).drop ((stem u).length - (scriptRoute u path).up) ++ rest := by
  have hstem := isSettled_of_mem_stem hu
  unfold IsBelow
  rw [String.startsWith_string_iff, String.toList_append, toList_trimEndSlashes hu hlevels, h.path, Url.toList_text]
  refine (Url.prefix_written_iff hstem fun _ => Url.isSettled_of_mem_target hstem).trans ?_
  exact exists_congr fun rest => and_congr_right fun _ => Route.target_eq_append_iff

/-- A path that nowhere has more double dots than names stays below that of the base URL. -/
theorem isBelow_of_names (hu : u.HasSettledPath) (hlevels : u.cannotBeBase = false) (h : LeadsFrom u path url)
    (hnames : ∀ front, front <+: scriptParts u path →
      Route.backs Url.isDoubleDot front ≤ Route.names Url.isDot Url.isDoubleDot front) : IsBelow u url := by
  have hup : (scriptRoute u path).up = 0 := (Url.up_route _).trans (Route.up_eq_zero_iff.2 hnames)
  refine (isBelow_iff hu hlevels h).2 ⟨(scriptRoute u path).down, ?_, ?_⟩
  · exact Url.down_route_ne_nil (Url.writtenParts_ne_nil _ _)
  · rw [hup, Nat.sub_zero, List.drop_length, List.nil_append]

/-! ## Calls and streams -/

/-- The base URL of the settings, with a path that others can be below. -/
def Settings.HasBase (s : Settings) (u : Url) : Prop :=
  ∃ base, s.baseUrl = some base ∧ Url.parse base = .ok u ∧ u.cannotBeBase = false

/-- With a base URL every path and query makes a URL, which has its scheme. -/
theorem resolveUrl_of_hasBase (h : s.HasBase u) (path : String) (query : Option String) :
    ∃ url, resolveUrl s path query = .ok url ∧ url.scheme = u.scheme ∧ LeadsFrom u path url := by
  obtain ⟨base, hbase, hparse, hlevels⟩ := h
  have hu := Url.hasSettledPath_of_parse hparse
  have hjoined : (trimEndSlashes u.path.text ++ "/" ++ trimStartSlashes path).toList =
      Url.written (stem u) ++ '/' :: (trimStartSlashes path).toList := by
    rw [String.toList_append, String.toList_append, toList_trimEndSlashes hu hlevels, List.append_assoc]
    rfl
  unfold resolveUrl
  simp only [hbase, hparse, hlevels, Bool.false_eq_true, if_false]
  refine ⟨_, rfl, rfl, rfl, rfl, ?_⟩
  rw [Url.path_setQuery, Url.path_setPath u (isSettled_of_mem_stem hu) hjoined]
  rfl

theorem leadsFrom_of_resolveUrl (h : s.HasBase u) (hurl : resolveUrl s path query = .ok url) :
    url.scheme = u.scheme ∧ LeadsFrom u path url := by
  obtain ⟨url', hurl', hscheme, hleads⟩ := resolveUrl_of_hasBase h path query
  obtain rfl : url' = url := Except.ok.inj (hurl'.symm.trans hurl)
  exact ⟨hscheme, hleads⟩

theorem url_of_prepare {c : Call} {r : Request} (h : prepare s c = .ok r) :
    ∃ url, resolveUrl s c.path c.query = .ok url ∧ r.url = url.withoutUserinfo := by
  unfold prepare at h
  obtain ⟨url, hurl, h⟩ := of_bind_eq_ok h
  refine ⟨url, hurl, ?_⟩
  cases hmethod : method? c.method with
  | none =>
    rw [hmethod] at h
    cases h
  | some method =>
    rw [hmethod] at h
    simp only [bind, Except.bind] at h
    split at h
    · cases h
    · split at h
      · cases h
      · cases h
        rfl

/-- The schemes of base URLs, each with that of its streams. -/
def streamSchemes : List (String × String) := [("http", "ws"), ("ws", "ws"), ("https", "wss"), ("wss", "wss")]

theorem of_streamUrl (h : streamUrl u = .ok url) :
    (u.scheme, url.scheme) ∈ streamSchemes ∧ url.host = u.host ∧ url.port = u.port ∧ url.path = u.path := by
  unfold streamUrl at h
  split at h
  case h_1 hscheme | h_2 hscheme | h_3 hscheme | h_4 hscheme =>
    cases h
    rw [hscheme]
    exact ⟨by simp [streamSchemes], rfl, rfl, rfl⟩
  case h_5 => cases h

theorem url_of_prepareStream {c : StreamCall} {r : StreamRequest} (h : prepareStream s c = .ok r) :
    ∃ url, resolveUrl s c.path c.query = .ok url ∧ streamUrl url = .ok r.url := by
  unfold prepareStream at h
  obtain ⟨url, hurl, h⟩ := of_bind_eq_ok h
  obtain ⟨streamed, hstreamed, h⟩ := of_bind_eq_ok h
  cases h
  exact ⟨url, hurl, hstreamed⟩

/-- No path or query leads a call or a stream away from the host and port of the base URL, or to another scheme than
its own or the one of its streams. The path of the URL begins with that of the base URL if the script's path nowhere
has more double dots than names, and exactly if it names again what it has left of the path of the base URL. -/
theorem keeps_to_endpoint (h : s.HasBase u) :
    (∀ path query, ∃ url, resolveUrl s path query = .ok url ∧ url.scheme = u.scheme ∧ LeadsFrom u path url) ∧
      (∀ c r, prepare s c = .ok r → r.url.scheme = u.scheme ∧ LeadsFrom u c.path r.url) ∧
      (∀ c r, prepareStream s c = .ok r →
        (u.scheme, r.url.scheme) ∈ streamSchemes ∧ LeadsFrom u c.path r.url) ∧
      ∀ path url, LeadsFrom u path url →
        ((∀ front, front <+: scriptParts u path →
            Route.backs Url.isDoubleDot front ≤ Route.names Url.isDot Url.isDoubleDot front) → IsBelow u url) ∧
        (IsBelow u url ↔ ∃ rest, rest ≠ [] ∧
          (scriptRoute u path).down = (stem u).drop ((stem u).length - (scriptRoute u path).up) ++ rest) := by
  refine ⟨resolveUrl_of_hasBase h, fun c r hr => ?_, fun c r hr => ?_, fun path url hleads => ?_⟩
  · obtain ⟨url, hurl, hused⟩ := url_of_prepare hr
    obtain ⟨hscheme, hleads⟩ := leadsFrom_of_resolveUrl h hurl
    rw [hused]
    exact ⟨hscheme, hleads.host, hleads.port, hleads.path⟩
  · obtain ⟨url, hurl, hused⟩ := url_of_prepareStream hr
    obtain ⟨hscheme, hleads⟩ := leadsFrom_of_resolveUrl h hurl
    obtain ⟨hschemes, hhost, hport, hpath⟩ := of_streamUrl hused
    rw [hscheme] at hschemes
    exact ⟨hschemes, hhost.trans hleads.host, hport.trans hleads.port, hpath.trans hleads.path⟩
  · obtain ⟨base, -, hparse, hlevels⟩ := h
    have hu := Url.hasSettledPath_of_parse hparse
    exact ⟨isBelow_of_names hu hlevels hleads, isBelow_iff hu hlevels hleads⟩

/-- A base URL with a path and a slash at its end. -/
def shop : Url := { scheme := "http", host := some "h", path := .segments ["v1", ""] }

/-- Settings with that base URL. -/
def shopSettings : Settings := { baseUrl := some "http://h/v1/" }

/-- A path that leads back only from where it has gone stays below the base URL. -/
theorem item_stays_below : shopSettings.HasBase shop ∧ ∃ r,
    prepare shopSettings { method := "GET", path := "list/../item" } = .ok r ∧ r.url.text = "http://h/v1/item" ∧
      IsBelow shop r.url := by
  have hbase : shopSettings.HasBase shop := ⟨_, rfl, by decide +kernel, rfl⟩
  obtain ⟨-, hcalls, -, hbelow⟩ := keeps_to_endpoint hbase
  have hcall : prepare shopSettings { method := "GET", path := "list/../item" } =
      .ok { method := "GET", url := { shop with path := .segments ["v1", "item"] }, timeout := 15000 } := by
    decide +kernel
  have hroute : (scriptRoute shop "list/../item").down =
      (stem shop).drop ((stem shop).length - (scriptRoute shop "list/../item").up) ++ ["item"] := by
    decide +kernel
  have hleads : LeadsFrom shop "list/../item" { shop with path := .segments ["v1", "item"] } := (hcalls _ _ hcall).2
  refine ⟨hbase, _, hcall, by decide +kernel, ?_⟩
  exact (hbelow _ _ hleads).2.2 ⟨["item"], List.cons_ne_nil _ _, hroute⟩

/-- A path that leads above the base URL is used all the same, in a call and, with its dots encoded, in a stream. -/
theorem led_above_base : shopSettings.HasBase shop ∧
    (∃ r, prepare shopSettings { method := "GET", path := "../up" } = .ok r ∧ r.url.text = "http://h/up" ∧
      ¬ IsBelow shop r.url) ∧
    ∃ r, prepareStream shopSettings { path := "%2e%2E/up", channel := "c" } = .ok r ∧ r.url.text = "ws://h/up" ∧
      ¬ IsBelow shop r.url := by
  refine ⟨⟨_, rfl, by decide +kernel, rfl⟩,
    ⟨{ method := "GET", url := { shop with path := .segments ["up"] }, timeout := 15000 }, ?_⟩,
    ⟨{ url := { shop with scheme := "ws", path := .segments ["up"] }, connectTimeout := 10000 }, ?_⟩⟩
  · decide +kernel
  · decide +kernel

end Scripting.Net
