/-
What a channel is told of one stream, whatever happens to the stream and in whatever order. The stream's
thread carries out one effect after the other, and between any two of them the rest of the host goes on:
others send on the handle, close it and read the channel. All that the thread has carried out is the
front of what the inputs so far call for (`Serving.Kept`), and what a list of inputs calls for is said
without the stream's phases (`effects_hearAll`): the news of the inputs up to the first that ends the
connection, between the opening and the last event. Since forgetting comes before the last event, the
handle is gone once that event can be seen.
-/
import Scripting.Host.Basic
import Scripting.Proofs.Acts
import Scripting.Proofs.Assoc
import Mathlib.Data.List.Basic
import Mathlib.Logic.Relation

namespace Scripting.Net

namespace Stream

/-! ## Events -/

/-- What a channel is told of a stream. -/
inductive Event where
  | opened
  | message (text : String)
  | closing (code : UInt16) (reason : String)
  | closed (code : UInt16) (reason : String)
  | failed (text : String)
  deriving DecidableEq

namespace Event

/-- The name and the parameters of an event of a handle. -/
def posting (handle : UInt32) : Event → String × Json
  | .opened => ("websocket_open", Json.ofMembers [("handle", .int handle.toNat)])
  | .message text =>
    ("websocket_message", Json.ofMembers [("handle", .int handle.toNat), ("message", .string text)])
  | .closing code reason =>
    ("websocket_closing",
      Json.ofMembers [("code", .int code.toNat), ("reason", .string reason), ("handle", .int handle.toNat)])
  | .closed code reason =>
    ("websocket_closed",
      Json.ofMembers [("code", .int code.toNat), ("reason", .string reason), ("handle", .int handle.toNat)])
  | .failed text =>
    ("websocket_failure", Json.ofMembers [("message", .string text), ("handle", .int handle.toNat)])

/-- Whether an event is a message or tells that the other side closes. -/
def isNews : Event → Bool
  | .message _ | .closing .. => true
  | _ => false

/-- Whether an event says that a stream is over. -/
def isLast : Event → Bool
  | .closed .. | .failed _ => true
  | _ => false

def text? : Event → Option String
  | .message text => some text
  | _ => none

def closing? : Event → Option (UInt16 × String)
  | .closing code reason => some (code, reason)
  | _ => none

/-- What a stream does to tell of an event. -/
def effects (s : Stream) : Event → List Effect
  | .opened => s.opened
  | .message text => s.received text
  | .closing code reason => s.closing code reason
  | .closed code reason => s.closed code reason
  | .failed text => s.failed text

end Event

/-- What an effect posts. -/
def Effect.posting? : Effect → Option (String × Json)
  | .post event params => some (event, params)
  | _ => none

/-- The last code and reason of a close that events tell of, or those of a normal end. -/
def lastClosing (events : List Event) : UInt16 × String :=
  ((events.filterMap Event.closing?).getLast?).getD (normalClosure, "")

/-- What may stand behind the opening and some news: nothing, a failure, or the end with the code and
the reason of the last close that was told of. -/
def Final (news last : List Event) : Prop :=
  last = [] ∨ (∃ text, last = [.failed text]) ∨ last = [.closed (lastClosing news).1 (lastClosing news).2]

/-- Nothing, a failure alone, or the opening with any news and perhaps one last event behind it. -/
def Lifelike (events : List Event) : Prop :=
  events = [] ∨ (∃ text, events = [.failed text]) ∨
    ∃ news last, events = .opened :: (news ++ last) ∧ (∀ e ∈ news, e.isNews = true) ∧ Final news last

/-! ## Inputs -/

namespace Input

/-- Whether an input says how connecting went. -/
def isOutcome : Input → Bool
  | .connected | .connectFailed _ => true
  | _ => false

/-- Whether an input ends an open connection. -/
def ends : Input → Bool
  | .broken _ | .ended | .sent (some _) | .pinged (some _) => true
  | _ => false

/-- The text of a text or binary frame. -/
def text? : Input → Option String
  | .frame (.text text) => some text
  | .frame (.binary bytes) => some (Text.ofBytes bytes)
  | _ => none

/-- What an open stream tells of an input that does not end it. -/
def news? : Input → Option Event
  | .frame (.text text) => some (.message text)
  | .frame (.binary bytes) => some (.message (Text.ofBytes bytes))
  | .frame (.close code) => some (.closing (code.getD (noStatus, "")).1 (code.getD (noStatus, "")).2)
  | _ => none

/-- What an open stream tells of an input that ends it, after some news. -/
def last? (news : List Event) : Input → Option Event
  | .broken text | .sent (some text) | .pinged (some text) => some (.failed text)
  | .ended => some (.closed (lastClosing news).1 (lastClosing news).2)
  | _ => none

end Input

/-- What is heard while the connection is up. -/
def live : List Input → List Input
  | [] => []
  | .connected :: rest => rest.takeWhile fun i => !i.ends
  | .connectFailed _ :: _ => []
  | _ :: rest => live rest

/-- What an open stream tells of a list of inputs, after some news. -/
def toldOpen (news : List Event) : List Input → List Event
  | [] => []
  | i :: rest =>
    if i.ends then (i.last? news).toList
    else i.news?.toList ++ toldOpen (news ++ i.news?.toList) rest

/-- What a stream tells of a list of inputs. -/
def told : List Input → List Event
  | [] => []
  | .connected :: rest => .opened :: toldOpen [] rest
  | .connectFailed text :: _ => [.failed text]
  | _ :: rest => told rest

/-- The stream after a list of inputs, and what it does on the way. -/
def hearAll (s : Stream) : List Input → Stream × List Effect
  | [] => (s, [])
  | i :: rest =>
    let (s, effects) := s.step i
    let (s, more) := s.hearAll rest
    (s, effects ++ more)

/-! ## What a list of inputs calls for -/

theorem hearAll_concat (s : Stream) (inputs : List Input) (i : Input) :
    s.hearAll (inputs ++ [i]) =
      (((s.hearAll inputs).1.step i).1, (s.hearAll inputs).2 ++ ((s.hearAll inputs).1.step i).2) := by
  induction inputs generalizing s with
  | nil => simp [hearAll]
  | cons j rest ih => simp [hearAll, ih]

/-- Only the phase of a stream changes. -/
theorem step_phase (s : Stream) (i : Input) : (s.step i).1 = { s with phase := (s.step i).1.phase } := by
  unfold step finish
  split <;> rfl

theorem hearAll_phase (s : Stream) (inputs : List Input) :
    (s.hearAll inputs).1 = { s with phase := (s.hearAll inputs).1.phase } := by
  induction inputs generalizing s with
  | nil => rfl
  | cons i rest ih =>
    simp only [hearAll]
    rw [ih, step_phase]

theorem Event.effects_phase (e : Event) (s : Stream) (p : Phase) : e.effects { s with phase := p } = e.effects s := by
  cases e <;> rfl

theorem hearAll_finished {s : Stream} (hs : s.phase = .finished) (inputs : List Input) :
    (s.hearAll inputs).2 = [] := by
  induction inputs with
  | nil => rfl
  | cons i rest ih =>
    have hstep : s.step i = (s, []) := by simp [step, hs]
    simp [hearAll, hstep, ih]

theorem lastClosing_concat (news : List Event) (code : UInt16) (reason : String) :
    lastClosing (news ++ [.closing code reason]) = (code, reason) := by
  simp [lastClosing, List.filterMap_append, Event.closing?]

/-- An open stream tells of an input and stays open, or tells of its end and is finished. -/
theorem step_open {s : Stream} {last : Option (UInt16 × String)} {news : List Event} (hs : s.phase = .open last)
    (hl : last.getD (normalClosure, "") = lastClosing news) (i : Input) :
    (i.ends = true ∧ (s.step i).1.phase = .finished ∧ (s.step i).2 = (i.last? news).toList.flatMap (Event.effects s)) ∨
    (i.ends = false ∧ (s.step i).2 = i.news?.toList.flatMap (Event.effects s) ∧ ∃ last', (s.step i).1.phase = .open last' ∧
      last'.getD (normalClosure, "") = lastClosing (news ++ i.news?.toList)) := by
  cases i with
  | connected | connectFailed =>
    exact .inr ⟨rfl, by simp [step, hs, Input.news?], last, by simp [step, hs], by simpa [Input.news?] using hl⟩
  | broken text => exact .inl ⟨rfl, by simp [step, hs, finish], by simp [step, hs, finish, Input.last?, Event.effects]⟩
  | ended => exact .inl ⟨rfl, by simp [step, hs, finish], by simp [step, hs, finish, Input.last?, Event.effects, hl]⟩
  | sent failure | pinged failure =>
    cases failure with
    | none => exact .inr ⟨rfl, by simp [step, hs, Input.news?], last, by simp [step, hs], by simpa [Input.news?] using hl⟩
    | some text => exact .inl ⟨rfl, by simp [step, hs, finish], by simp [step, hs, finish, Input.last?, Event.effects]⟩
  | frame f =>
    cases f with
    | text text | binary bytes =>
      refine .inr ⟨rfl, by simp [step, hs, Input.news?, Event.effects], last, by simp [step, hs], ?_⟩
      simpa [Input.news?, lastClosing, Event.closing?] using hl
    | close code =>
      refine .inr ⟨rfl, by simp [step, hs, Input.news?, Event.effects], some (code.getD (noStatus, "")),
        by simp [step, hs], ?_⟩
      simp [Input.news?, lastClosing_concat]
    | control =>
      exact .inr ⟨rfl, by simp [step, hs, Input.news?], last, by simp [step, hs], by simpa [Input.news?] using hl⟩

theorem effects_hearAll_open {s : Stream} {last : Option (UInt16 × String)} {news : List Event}
    (hs : s.phase = .open last) (hl : last.getD (normalClosure, "") = lastClosing news) (inputs : List Input) :
    (s.hearAll inputs).2 = (toldOpen news inputs).flatMap (Event.effects s) := by
  induction inputs generalizing s last news with
  | nil => rfl
  | cons i rest ih =>
    have heff (e : Event) : e.effects (s.step i).1 = e.effects s := by
      rw [step_phase, Event.effects_phase]
    rcases step_open hs hl i with ⟨hi, hfin, he⟩ | ⟨hi, he, last', hopen, hl'⟩
    · simp [hearAll, toldOpen, hi, he, hearAll_finished hfin]
    · have ih' := ih hopen hl'
      rw [show Event.effects (s.step i).1 = Event.effects s from funext heff] at ih'
      simp [hearAll, toldOpen, hi, he, ih']

/-- What a stream that connects does is what tells of the inputs. -/
theorem effects_hearAll {s : Stream} (hs : s.phase = .connecting) (inputs : List Input) :
    (s.hearAll inputs).2 = (told inputs).flatMap (Event.effects s) := by
  induction inputs with
  | nil => rfl
  | cons i rest ih =>
    cases i with
    | connected =>
      have hstep : s.step .connected = ({ s with phase := .open none }, s.opened) := by simp [step, hs]
      have hrest : (({ s with phase := .open none } : Stream).hearAll rest).2 = (toldOpen [] rest).flatMap _ :=
        effects_hearAll_open rfl rfl rest
      rw [show Event.effects { s with phase := .open none } = Event.effects s from
        funext fun e => e.effects_phase s _] at hrest
      simp [hearAll, hstep, told, hrest, Event.effects]
    | connectFailed text =>
      have hstep : s.step (.connectFailed text) = ({ s with phase := .finished }, s.failed text) := by
        simp [step, hs, finish]
      have hrest := hearAll_finished (s := { s with phase := .finished }) rfl rest
      simp [hearAll, hstep, told, hrest, Event.effects]
    | _ =>
      simp only [hearAll, told]
      rw [show s.step _ = (s, []) by simp [step, hs], List.nil_append]
      exact ih

/-! ## What is told -/

theorem isNews_of_news? {i : Input} {e : Event} (h : i.news? = some e) : e.isNews = true := by
  revert h
  fun_cases Input.news? i <;> rintro ⟨⟩ <;> rfl

theorem text?_of_final {news last : List Event} (h : Final news last) : last.filterMap Event.text? = [] := by
  rcases h with rfl | ⟨text, rfl⟩ | rfl <;> rfl

theorem text?_news? (i : Input) : i.news?.bind Event.text? = i.text? := by
  cases i with
  | frame f => cases f <;> rfl
  | _ => rfl

theorem final_last? (i : Input) (news : List Event) : Final news (i.last? news).toList := by
  cases i with
  | broken text => exact .inr (.inl ⟨text, rfl⟩)
  | ended => exact .inr (.inr rfl)
  | sent failure | pinged failure =>
    cases failure with
    | none => exact .inl rfl
    | some text => exact .inr (.inl ⟨text, rfl⟩)
  | _ => exact .inl rfl

/-- The news of the inputs up to the first that ends the connection, and then the last event. -/
theorem toldOpen_split (news : List Event) (inputs : List Input) :
    ∃ last, toldOpen news inputs = (inputs.takeWhile fun i => !i.ends).filterMap Input.news? ++ last ∧
      Final (news ++ (inputs.takeWhile fun i => !i.ends).filterMap Input.news?) last := by
  induction inputs generalizing news with
  | nil => exact ⟨[], rfl, .inl rfl⟩
  | cons i rest ih =>
    cases hi : i.ends with
    | true => exact ⟨(i.last? news).toList, by simp [toldOpen, hi], by simpa [hi] using final_last? i news⟩
    | false =>
      obtain ⟨last, hsplit, hlast⟩ := ih (news ++ i.news?.toList)
      rw [toldOpen, hi, hsplit, List.takeWhile_cons, hi]
      refine ⟨last, ?_, ?_⟩ <;> cases hn : i.news? <;> simp_all

theorem lifelike_told (inputs : List Input) : Lifelike (told inputs) := by
  induction inputs with
  | nil => exact .inl rfl
  | cons i rest ih =>
    cases i with
    | connected =>
      obtain ⟨last, hsplit, hlast⟩ := toldOpen_split [] rest
      rw [List.nil_append] at hlast
      refine .inr (.inr ⟨_, last, by rw [told, hsplit], ?_, hlast⟩)
      intro e he
      obtain ⟨i, -, hi⟩ := List.mem_filterMap.1 he
      exact isNews_of_news? hi
    | connectFailed text => exact .inr (.inl ⟨text, rfl⟩)
    | _ => exact ih

theorem Final.front {news last more : List Event} (h : Final news last) (hm : more <+: last) : Final news more := by
  have hone : last.length ≤ 1 := by rcases h with rfl | ⟨_, rfl⟩ | rfl <;> simp
  cases more with
  | nil => exact .inl rfl
  | cons e rest =>
    have hlen : (e :: rest).length = last.length := by
      have := hm.length_le
      simp only [List.length_cons] at this ⊢
      omega
    rw [hm.eq_of_length hlen]
    exact h

/-- The front of a life is a life. -/
theorem Lifelike.front {events front : List Event} (h : Lifelike events) (hf : front <+: events) : Lifelike front := by
  rcases h with rfl | ⟨text, rfl⟩ | ⟨news, last, rfl, hnews, hlast⟩
  · exact .inl (List.prefix_nil.1 hf)
  · rcases List.prefix_cons_iff.1 hf with rfl | ⟨rest, rfl, hrest⟩
    · exact .inl rfl
    · rw [List.prefix_nil.1 hrest]
      exact .inr (.inl ⟨text, rfl⟩)
  · rcases List.prefix_cons_iff.1 hf with rfl | ⟨rest, rfl, hrest⟩
    · exact .inl rfl
    · refine .inr (.inr ?_)
      rcases List.prefix_or_prefix_of_prefix hrest (List.prefix_append news last) with hr | ⟨more, rfl⟩
      · exact ⟨rest, [], by simp, fun e he => hnews e (hr.subset he), .inl rfl⟩
      · exact ⟨news, more, rfl, hnews, hlast.front ((List.prefix_append_right_inj news).1 hrest)⟩

/-- The messages that are told are the texts that came in while the connection was up. -/
theorem texts_told (inputs : List Input) :
    (told inputs).filterMap Event.text? = (live inputs).filterMap Input.text? := by
  induction inputs with
  | nil => rfl
  | cons i rest ih =>
    cases i with
    | connected =>
      obtain ⟨last, hsplit, hlast⟩ := toldOpen_split [] rest
      rw [told, hsplit, live, List.filterMap_cons_none rfl, List.filterMap_append, text?_of_final hlast,
        List.append_nil, List.filterMap_filterMap]
      exact List.filterMap_congr fun i _ => text?_news? i
    | connectFailed text => rfl
    | _ => exact ih

/-- A stream that was told how connecting went tells of something. -/
theorem told_ne_nil {inputs : List Input} {i : Input} (hi : i ∈ inputs) (ho : i.isOutcome = true) : told inputs ≠ [] := by
  induction inputs with
  | nil => cases hi
  | cons j rest ih =>
    cases j with
    | connected | connectFailed => exact nofun
    | _ =>
      rcases List.mem_cons.1 hi with rfl | hi
      · cases ho
      · exact ih hi

end Stream

/-! ## A host that serves a stream -/

/-- A host with the thread that serves one of its streams. -/
structure Serving where
  host : Host
  stream : Stream
  /-- What the last input calls for and is not done yet. -/
  due : List Stream.Effect := []
  /-- What has happened to the stream so far. -/
  heard : List Stream.Input := []
  /-- What the stream has posted so far. -/
  posted : List (String × Json) := []

namespace Serving

inductive Act where
  /-- Something happens to the stream. -/
  | hear (i : Stream.Input)
  /-- The thread does the next thing that is due. -/
  | goOn
  /-- Others go on: they send, close and read, and open streams with other handles. -/
  | meanwhile (h : Host)

def connection? (s : Serving) : Option Connection := Assoc.find? s.stream.handle s.host.client.connections

/-- Does one effect of the stream. -/
def perform (s : Serving) (e : Stream.Effect) (rest : List Stream.Effect) : Serving := { s with
  host := s.host.applyEffect s.stream.channel s.stream.handle e
  due := rest
  posted := s.posted ++ e.posting?.toList }

/-- Whether an effect has to wait, as somebody else holds the queue that it posts to. -/
def waits (s : Serving) (e : Stream.Effect) : Bool := e.posting?.isSome && !s.host.isFree s.stream.channel

/-- The stream hears of an input; what an open one has sent is out of its queue. -/
def hear (s : Serving) (i : Stream.Input) : Option Serving :=
  let after (h : Host) : Serving :=
    { s with host := h, stream := (s.stream.step i).1, due := (s.stream.step i).2, heard := s.heard ++ [i] }
  match s.stream.phase, i with
  | .open _, .sent _ =>
    (s.host.client.connections.takeOutbound s.stream.handle).map fun (_, connections) =>
      after { s.host with client := { s.host.client with connections } }
  | _, _ => some (after s.host)

/-- The state after an act; none where whoever acts has to wait. The thread takes notice of an input only
when nothing is due any more, and a handle that is gone is not given out again. -/
def step (s : Serving) : Act → Option Serving
  | .hear i => if s.due.isEmpty then s.hear i else none
  | .goOn =>
    match s.due with
    | [] => none
    | e :: rest => if s.waits e then none else some (s.perform e rest)
  | .meanwhile host =>
    if s.connection?.isNone && Assoc.contains s.stream.handle host.client.connections then none
    else some { s with host }

/-- Acts lead from one state to another. -/
def Leads : Serving → Serving → Prop := Relation.ReflTransGen fun s s' => ∃ a, s.step a = some s'

/-- The stream has just been opened. -/
structure Fresh (s : Serving) : Prop where
  phase : s.stream.phase = .connecting
  due : s.due = []
  heard : s.heard = []
  posted : s.posted = []

/-! ## What every act keeps -/

/-- Whether an event of a name says that a stream is over. -/
def isLastName (event : String) : Bool := event == "websocket_closed" || event == "websocket_failure"

theorem isLastName_posting (handle : UInt32) (e : Stream.Event) : isLastName (e.posting handle).1 = e.isLast := by
  cases e <;> rfl

/-- Whether the handle is forgotten before it is told that the stream is over. -/
def forewarned : List Stream.Effect → Bool
  | [] => true
  | .forget :: _ => true
  | .post event _ :: rest => !isLastName event && forewarned rest
  | .log _ :: rest => forewarned rest

theorem forewarned_step (s : Stream) (i : Stream.Input) : forewarned (s.step i).2 = true := by
  unfold Stream.step Stream.finish
  split <;> rfl

/-- What holds of a stream that has just been opened, and after every act. -/
structure Kept (s0 s : Serving) : Prop where
  stream : s.stream = (s0.stream.hearAll s.heard).1
  account : ∃ done, (s0.stream.hearAll s.heard).2 = done ++ s.due ∧ s.posted = done.filterMap Stream.Effect.posting?
  warned : s.connection? = none ∨ forewarned s.due = true
  gone : ∀ x ∈ s.posted, isLastName x.1 = true → s.connection? = none

section

variable {s0 s s' : Serving}

theorem kept_fresh (hf : s0.Fresh) : Kept s0 s0 := by
  refine ⟨by rw [hf.heard]; rfl, ⟨[], ?_, hf.posted⟩, .inr ?_, ?_⟩
  · rw [hf.heard, hf.due]; rfl
  · rw [hf.due]; rfl
  · rw [hf.posted]; exact nofun

/-- By hearing of an input the connection is not found again where it was gone. -/
theorem hear_eq_some {i : Stream.Input} (h : s.hear i = some s') :
    s'.stream = (s.stream.step i).1 ∧ s'.due = (s.stream.step i).2 ∧ s'.heard = s.heard ++ [i] ∧ s'.posted = s.posted ∧
    (s.connection? = none → s'.connection? = none) := by
  have hhandle : (s.stream.step i).1.handle = s.stream.handle := by rw [Stream.step_phase]
  unfold hear at h
  simp only at h
  split at h
  · obtain ⟨⟨o, cs⟩, ho, rfl⟩ := Option.map_eq_some_iff.1 h
    refine ⟨rfl, rfl, rfl, rfl, fun hnone => ?_⟩
    -- nothing can be taken out of the queue of a connection that is gone
    unfold Connections.takeOutbound at ho
    rw [show Assoc.find? s.stream.handle s.host.client.connections = none from hnone] at ho
    cases ho
  · cases h
    refine ⟨rfl, rfl, rfl, rfl, fun hnone => ?_⟩
    unfold connection?
    rw [hhandle]
    exact hnone

theorem Kept.hear {i : Stream.Input} (hk : Kept s0 s) (hd : s.due = []) (h : s.hear i = some s') : Kept s0 s' := by
  obtain ⟨hstream, hdue, hheard, hposted, hnone⟩ := hear_eq_some h
  obtain ⟨done, hall, hpost⟩ := hk.account
  rw [hd, List.append_nil] at hall
  refine ⟨?_, ⟨done, ?_, by rw [hposted, hpost]⟩, .inr ?_, fun x hx hl => ?_⟩
  · rw [hheard, Stream.hearAll_concat, hstream, hk.stream]
  · rw [hheard, Stream.hearAll_concat, hall, hdue, hk.stream]
  · rw [hdue]
    exact forewarned_step _ i
  · rw [hposted] at hx
    exact hnone (hk.gone x hx hl)

/-- What an effect does to the connection. -/
theorem connection?_perform (e : Stream.Effect) (rest : List Stream.Effect) :
    (s.perform e rest).connection? = if e matches .forget then none else s.connection? := by
  cases e with
  | forget => exact Assoc.find?_erase_self _ _
  | post | log => rfl

theorem Kept.perform {e : Stream.Effect} {rest : List Stream.Effect} (hk : Kept s0 s) (hd : s.due = e :: rest) :
    Kept s0 (s.perform e rest) := by
  obtain ⟨done, hall, hpost⟩ := hk.account
  have hnone : s.connection? = none → (s.perform e rest).connection? = none := by
    intro h
    rw [connection?_perform, h, ite_self]
  refine ⟨hk.stream, ⟨done ++ [e], ?_, ?_⟩, ?_, fun x hx hl => ?_⟩
  · rw [hd] at hall
    rw [List.append_assoc]
    exact hall
  · rw [List.filterMap_append, ← hpost, List.filterMap_cons, List.filterMap_nil]
    cases e <;> rfl
  · rcases hk.warned with h | h
    · exact .inl (hnone h)
    · rw [hd] at h
      cases e with
      | forget => exact .inl (by rw [connection?_perform]; rfl)
      | post event params =>
        rw [forewarned, Bool.and_eq_true] at h
        exact .inr h.2
      | log => exact .inr h
  · rcases List.mem_append.1 hx with hx | hx
    · exact hnone (hk.gone x hx hl)
    · rcases hk.warned with h | h
      · exact hnone h
      · -- the event that the stream is over is not posted before the handle is forgotten
        rw [hd] at h
        cases e with
        | forget | log => cases hx
        | post event params =>
          rw [List.mem_singleton.1 hx] at hl
          rw [forewarned, hl] at h
          cases h

theorem Kept.step {a : Act} (hk : Kept s0 s) (hs : s.step a = some s') : Kept s0 s' := by
  cases a with
  | hear i =>
    simp only [Serving.step] at hs
    split at hs
    · rename_i hd
      exact hk.hear (List.isEmpty_iff.1 hd) hs
    · cases hs
  | goOn =>
    simp only [Serving.step] at hs
    split at hs
    · cases hs
    · rename_i hd
      split at hs
      · cases hs
      · cases hs
        exact hk.perform hd
  | meanwhile host =>
    simp only [Serving.step] at hs
    split at hs
    · cases hs
    · rename_i hg
      cases hs
      have hnone : s.connection? = none → ({ s with host } : Serving).connection? = none := by
        intro h
        rw [h] at hg
        exact Assoc.find?_eq_none_of_contains (by simpa using hg)
      exact ⟨hk.stream, hk.account, hk.warned.imp_left hnone, fun x hx hl => hnone (hk.gone x hx hl)⟩

theorem kept_of_leads (hf : s0.Fresh) (hl : s0.Leads s) : Kept s0 s := by
  induction hl with
  | refl => exact kept_fresh hf
  | tail _ hs ih =>
    obtain ⟨a, hs⟩ := hs
    exact ih.step hs

/-! ## The life of a stream -/

theorem Kept.handle (hk : Kept s0 s) : s.stream.handle = s0.stream.handle := by
  rw [hk.stream, Stream.hearAll_phase]

theorem posting?_effects (s : Stream) (e : Stream.Event) :
    (e.effects s).filterMap Stream.Effect.posting? = [e.posting s.handle] := by
  cases e <;> rfl

/-- What is posted is the front of what the inputs call for, and all of it when nothing is due. -/
theorem Kept.told (hk : Kept s0 s) (hp : s0.stream.phase = .connecting) :
    ∃ events, events <+: Stream.told s.heard ∧ s.posted = events.map (Stream.Event.posting s0.stream.handle) ∧
      (s.due = [] → events = Stream.told s.heard) := by
  obtain ⟨done, hall, hpost⟩ := hk.account
  have hcalled : (done ++ s.due).filterMap Stream.Effect.posting? =
      (Stream.told s.heard).map (Stream.Event.posting s0.stream.handle) := by
    rw [← hall, Stream.effects_hearAll hp, List.filterMap_flatMap]
    simp only [posting?_effects]
    exact List.map_eq_flatMap.symm
  by_cases hd : s.due = []
  · rw [hd, List.append_nil] at hcalled
    exact ⟨_, List.prefix_rfl, hpost.trans hcalled, fun _ => rfl⟩
  · have hfront : s.posted <+: (Stream.told s.heard).map (Stream.Event.posting s0.stream.handle) := by
      rw [← hcalled, List.filterMap_append, hpost]
      exact List.prefix_append _ _
    obtain ⟨events, hev, heq⟩ := List.prefix_map_iff.1 hfront
    exact ⟨events, hev, heq, fun h => absurd h hd⟩

/-- What was posted stays posted. -/
theorem posted_grows (hl : s.Leads s') : s.posted <+: s'.posted := by
  induction hl with
  | refl => exact List.prefix_rfl
  | tail _ hs ih =>
    obtain ⟨a, hs⟩ := hs
    refine ih.trans ?_
    cases a with
    | hear i =>
      simp only [step] at hs
      split at hs
      · have hposted := (hear_eq_some hs).2.2.2.1
        exact hposted ▸ List.prefix_rfl
      · cases hs
    | goOn =>
      simp only [step] at hs
      split at hs
      · cases hs
      · split at hs
        · cases hs
        · cases hs
          exact List.prefix_append _ _
    | meanwhile host =>
      simp only [step] at hs
      split at hs
      · cases hs
      · cases hs
        exact List.prefix_rfl

/-- The handle is in no table, and nobody can send on it or close it, not even who had found it before. -/
structure Gone (s : Serving) (handle : UInt32) : Prop where
  connection : Assoc.find? handle s.host.client.connections = none
  refused : ∀ w, (s.host.fulfilWish handle w).1 = false
  underway : ∀ (w : Wish) (p : Wish.Phase), (∀ r, p ≠ .done r) →
    (w.step handle s.host.client.connections p).2 = .done false

theorem step_none {cs : Connections} {handle : UInt32} (h : Assoc.find? handle cs = none) (w : Wish) (p : Wish.Phase)
    (hp : ∀ r, p ≠ .done r) : w.step handle cs p = (cs, .done false) := by
  cases p with
  | done r => exact absurd rfl (hp r)
  | start | found | allowed => simp [Wish.step, h]

theorem gone_of_find? {handle : UInt32} (h : Assoc.find? handle s.host.client.connections = none) : s.Gone handle := by
  refine ⟨h, fun w => ?_, fun w p hp => by rw [step_none h w p hp]⟩
  unfold Host.fulfilWish Connections.fulfil
  rw [step_none h w .start nofun]
  rfl

/-- In a life nothing stands behind the last event. -/
theorem nothing_behind_last {events : List Stream.Event} (h : Stream.Lifelike events) :
    events.Pairwise fun e _ => e.isLast = false := by
  rcases h with rfl | ⟨text, rfl⟩ | ⟨news, last, rfl, hnews, hlast⟩
  · exact .nil
  · exact List.pairwise_singleton _ _
  · have hold : ∀ e ∈ news, e.isLast = false := by
      intro e he
      have := hnews e he
      cases e <;> first | rfl | cases this
    refine List.pairwise_cons.2 ⟨fun _ _ => rfl, List.pairwise_append.2 ⟨?_, ?_, fun e he _ _ => hold e he⟩⟩
    · exact List.pairwise_of_forall_mem_list fun e he _ _ => hold e he
    · rcases hlast with rfl | ⟨text, rfl⟩ | rfl <;> simp

/-- Whatever happens to a stream, it posts nothing, or a failure alone, or that it is open, then any news
and last perhaps a failure or its end, with the code and the reason of the last close that it told of;
once it was told how connecting went and nothing is due, it has posted something. Its messages are the
texts of the frames that came in while it was open, each once and in order. When the last event is
posted the handle is gone: sends and closes are refused from then on, and nothing more is posted. -/
theorem stream_lifecycle (hf : s0.Fresh) (hl : s0.Leads s) :
    ∃ events, s.posted = events.map (Stream.Event.posting s0.stream.handle) ∧ Stream.Lifelike events ∧
      events.filterMap Stream.Event.text? <+: (Stream.live s.heard).filterMap Stream.Input.text? ∧
      (s.due = [] →
        events.filterMap Stream.Event.text? = (Stream.live s.heard).filterMap Stream.Input.text? ∧
        ∀ i ∈ s.heard, i.isOutcome = true → events ≠ []) ∧
      ∀ e ∈ events, e.isLast = true →
        ∀ s', s.Leads s' → s'.Gone s0.stream.handle ∧ s'.posted = s.posted := by
  have hk := kept_of_leads hf hl
  obtain ⟨events, hfront, hposted, hall⟩ := hk.told hf.phase
  refine ⟨events, hposted, (Stream.lifelike_told _).front hfront, ?_, fun hd => ?_, fun e he hlast s' hl' => ?_⟩
  · rw [← Stream.texts_told]
    exact hfront.filterMap _
  · rw [hall hd]
    exact ⟨Stream.texts_told _, fun i hi ho => Stream.told_ne_nil hi ho⟩
  · have hk' := kept_of_leads hf (hl.trans hl')
    obtain ⟨more, hmore⟩ := posted_grows hl'
    have hx : e.posting s0.stream.handle ∈ s.posted := by
      rw [hposted]
      exact List.mem_map_of_mem he
    have hname : isLastName (e.posting s0.stream.handle).1 = true := by rw [isLastName_posting, hlast]
    constructor
    · refine gone_of_find? ?_
      rw [← hk'.handle]
      exact hk'.gone _ (hmore ▸ List.mem_append_left more hx) hname
    · -- what is posted later would stand behind the last event of a life
      obtain ⟨events', hfront', hposted', -⟩ := hk'.told hf.phase
      have hpair : s'.posted.Pairwise fun x _ => isLastName x.1 = false := by
        rw [hposted', List.pairwise_map]
        simp only [isLastName_posting]
        exact nothing_behind_last ((Stream.lifelike_told _).front hfront')
      cases more with
      | nil => rw [← hmore, List.append_nil]
      | cons y more =>
        rw [← hmore] at hpair
        have := (List.pairwise_append.1 hpair).2.2 _ hx y List.mem_cons_self
        rw [hname] at this
        cases this

end

/-! ## A run -/

/-- A host that has just opened its first stream. -/
def opened : Serving where
  host := {
    environment := { resolve := fun id => .error (.notFound id), compile := fun _ _ => .done none }
    client := { connections := [(1, {})], nextHandle := 2 } }
  stream := { handle := 1, channel := "c" }

theorem fresh_opened : opened.Fresh := ⟨rfl, rfl, rfl, rfl⟩

/-- A text comes in, the other side goes away, and what comes in behind the end is not heard. -/
def departing : List Act :=
  [.hear .connected, .goOn, .hear (.frame (.text "hi")), .goOn, .hear (.frame (.close (some (1001, "away")))), .goOn,
    .hear .ended, .goOn, .goOn, .hear (.frame (.text "late"))]

theorem departing_closed : ∃ s, opened.Leads s ∧
    s.posted = [.opened, .message "hi", .closing 1001 "away", .closed 1001 "away"].map (Stream.Event.posting 1) ∧
    s.Gone 1 := by
  have hplayed : ∃ s, departing.foldlM step opened = some s ∧ s.posted =
      [.opened, .message "hi", .closing 1001 "away", .closed 1001 "away"].map (Stream.Event.posting 1) := ⟨_, rfl, rfl⟩
  obtain ⟨s, hs, hposted⟩ := hplayed
  have hl := leads_of_played hs
  obtain ⟨events, hevents, -, -, -, hlast⟩ := stream_lifecycle fresh_opened hl
  refine ⟨s, hl, hposted, ?_⟩
  rw [hposted] at hevents
  -- an event with the name of the last one is a last one
  have hm : (Stream.Event.closed 1001 "away").posting 1 ∈ events.map (Stream.Event.posting opened.stream.handle) := by
    rw [← hevents]
    simp
  obtain ⟨e, he, heq⟩ := List.mem_map.1 hm
  have hend : e.isLast = true := by rw [← isLastName_posting opened.stream.handle, heq]; rfl
  exact (hlast e he hend s .refl).1

end Serving

end Scripting.Net
