/-
What a call of the host library leaves behind that fails for its arguments. The functions look at all of
their arguments before they ask the host for anything, so such a call leaves the host as it was. There is one
exception: polling brings its channel into being first and looks at the wait only then. A wait that is no
number fails when the channel is there already.
-/
import Scripting.Library.Basic
import Scripting.Proofs.Channel.Laws
import Scripting.Proofs.Host.Routines
import Mathlib.Logic.Relation

namespace Scripting

namespace Library

/-! ## What is said of wrong arguments -/

/-- The names of the arguments that have to be texts. -/
def textNames : List String := ["channel", "event", "method", "path", "text"]

/-- What a call says of arguments that it cannot use. -/
inductive ArgumentError : String → Prop
  | missing (name : String) : ArgumentError s!"missing argument {name}"
  | notText {name : String} (v : Value) : name ∈ textNames →
      ArgumentError s!"{name} must be a string, got {v.type.text}"
  | notTextAt (i : Nat) (v : Value) : ArgumentError s!"argument {i} must be a string, got {v.type.text}"
  | notMillis (i : Nat) (v : Value) : ArgumentError s!"argument {i} must be milliseconds, got {v.text}"
  | notHandle (v : Value) : ArgumentError s!"handle must be a number, got {v.text}"
  | notCloseCode (v : Value) : ArgumentError s!"code must be a close code, got {v.text}"

theorem head?_append {s t : String} {c : Char} (h : s.toList.head? = some c) : (s ++ t).toList.head? = some c := by
  rw [String.toList_append, List.head?_append, h]
  rfl

/-- It begins with a small letter. -/
theorem ArgumentError.head {text : String} (h : ArgumentError text) :
    ∃ c, text.toList.head? = some c ∧ c.isLower = true := by
  cases h with
  | missing name => exact ⟨'m', head?_append rfl, by decide⟩
  | notText v hname =>
    -- each of the names does
    have hnames : ∀ name ∈ textNames, ∃ c, name.toList.head? = some c ∧ c.isLower = true := by
      simp [textNames]
    obtain ⟨c, hc, hlower⟩ := hnames _ hname
    exact ⟨c, head?_append (head?_append hc), hlower⟩
  | notTextAt i v => exact ⟨'a', head?_append (head?_append (head?_append rfl)), by decide⟩
  | notMillis i v => exact ⟨'a', head?_append (head?_append (head?_append rfl)), by decide⟩
  | notHandle v => exact ⟨'h', head?_append rfl, by decide⟩
  | notCloseCode v => exact ⟨'c', head?_append rfl, by decide⟩

theorem not_argumentError_message (e : Net.NetError) : ¬ ArgumentError e.message := by
  intro h
  obtain ⟨c, hc, hlower⟩ := h.head
  have hupper : ∃ c', e.message.toList.head? = some c' ∧ c'.isLower = false := by
    cases e with
    | configuration text => exact ⟨'C', head?_append rfl, by decide⟩
    | network text => exact ⟨'N', head?_append rfl, by decide⟩
    | invalidRequest text => exact ⟨'I', head?_append rfl, by decide⟩
    | interrupted => exact ⟨'R', rfl, by decide⟩
  obtain ⟨c', hc', hother⟩ := hupper
  rw [hc] at hc'
  cases hc'
  rw [hlower] at hother
  cases hother

section

variable {args : List Value} {i : Nat} {text : String}

theorem requiredString_error {name : String} (hname : name ∈ textNames)
    (h : requiredString args i name = .error text) : ArgumentError text := by
  unfold requiredString at h
  split at h
  · cases h
    exact .missing name
  · rename_i v _
    split at h
    · cases h
    · cases h
      exact .notText v hname

theorem optionalString_error (h : optionalString args i = .error text) : ArgumentError text := by
  unfold optionalString at h
  split at h
  · cases h
  · rename_i v _
    split at h
    · cases h
    · cases h
      exact .notTextAt i v

theorem optionalMillis_error (h : optionalMillis args i = .error text) : ArgumentError text := by
  unfold optionalMillis at h
  split at h
  · cases h
  · rename_i v _
    split at h
    · cases h
    · cases h
      exact .notMillis i v

theorem requiredHandle_error (h : requiredHandle args i = .error text) : ArgumentError text := by
  unfold requiredHandle at h
  split at h
  · cases h
    exact .missing "handle"
  · rename_i v _
    split at h
    · cases h
    · cases h
      exact .notHandle v

theorem optionalCloseCode_error (h : optionalCloseCode args i = .error text) : ArgumentError text := by
  unfold optionalCloseCode at h
  split at h
  · cases h
  · rename_i v _
    split at h
    · cases h
    · cases h
      exact .notCloseCode v

end

/-! ## What is asked for before -/

/-- A routine that fails either cannot use the arguments of its call and has asked for nothing, or it fails over
the network. -/
def LooksFirst (p : Routine (Except String Value)) : Prop :=
  ∀ said text, p.Ends said (.error text) → ArgumentError text ∧ said = [] ∨ ∃ e : Net.NetError, text = e.message

variable {α : Type}

theorem looksFirst_withArgument {a : Except String α} {f : α → Routine (Except String Value)}
    (ha : ∀ text, a = .error text → ArgumentError text) (hf : ∀ x, LooksFirst (f x)) :
    LooksFirst (withArgument a f) := by
  intro said text h
  cases a with
  | error e =>
    cases h
    exact .inl ⟨ha _ rfl, rfl⟩
  | ok x => exact hf x said text h

/-- What ends well in any case does not fail. -/
theorem looksFirst_of_ok {p : Routine α} {f : α → Value} : LooksFirst (do return .ok (f (← p))) := by
  intro said text h
  obtain ⟨_, _, _, _, _, h⟩ := h.of_bind
  cases h

theorem looksFirst_of_answer {p : Routine (Except Net.NetError α)}
    {f : Except Net.NetError α → Routine (Except String Value)}
    (hok : ∀ a, ∃ v, f (.ok a) = .done (.ok v)) (herror : ∀ e, f (.error e) = .done (.error e.message)) :
    LooksFirst (p >>= f) := by
  intro said text h
  obtain ⟨_, _, a, _, _, h⟩ := h.of_bind
  cases a with
  | ok a =>
    obtain ⟨v, hv⟩ := hok a
    rw [hv] at h
    cases h
  | error e =>
    rw [herror e] at h
    cases h
    exact .inr ⟨e, rfl⟩

theorem looksFirst_postMessage (args : List Value) : LooksFirst (postMessage args) := by
  refine looksFirst_withArgument (fun _ => requiredString_error (by decide)) fun channel => ?_
  refine looksFirst_withArgument (fun _ => requiredString_error (by decide)) fun event => ?_
  exact looksFirst_of_ok (f := fun _ => .void)

theorem looksFirst_makeRequest (args : List Value) : LooksFirst (makeRequest args) := by
  refine looksFirst_withArgument (fun _ => requiredString_error (by decide)) fun method => ?_
  refine looksFirst_withArgument (fun _ => requiredString_error (by decide)) fun path => ?_
  refine looksFirst_withArgument (fun _ => optionalString_error) fun query => ?_
  refine looksFirst_withArgument (fun _ => optionalString_error) fun body => ?_
  refine looksFirst_withArgument (fun _ => optionalMillis_error) fun timeout => ?_
  exact looksFirst_of_answer (fun r => ⟨_, rfl⟩) fun e => rfl

theorem looksFirst_openWebsocket (args : List Value) : LooksFirst (openWebsocket args) := by
  refine looksFirst_withArgument (fun _ => requiredString_error (by decide)) fun path => ?_
  refine looksFirst_withArgument (fun _ => optionalString_error) fun query => ?_
  refine looksFirst_withArgument (fun _ => optionalMillis_error) fun ping => ?_
  refine looksFirst_withArgument (fun _ => requiredString_error (by decide)) fun channel => ?_
  exact looksFirst_of_answer (fun handle => ⟨_, rfl⟩) fun e => rfl

theorem looksFirst_sendWebsocketMessage (args : List Value) : LooksFirst (sendWebsocketMessage args) := by
  refine looksFirst_withArgument (fun _ => requiredHandle_error) fun handle => ?_
  refine looksFirst_withArgument (fun _ => requiredString_error (by decide)) fun text => ?_
  exact looksFirst_of_ok

theorem looksFirst_closeWebsocket (args : List Value) : LooksFirst (closeWebsocket args) := by
  refine looksFirst_withArgument (fun _ => requiredHandle_error) fun handle => ?_
  refine looksFirst_withArgument (fun _ => optionalCloseCode_error) fun code => ?_
  refine looksFirst_withArgument (fun _ => optionalString_error) fun reason => ?_
  exact looksFirst_of_ok

theorem looksFirst_currentThread (args : List Value) : LooksFirst (currentThread args) := looksFirst_of_ok

/-- A call polls from a channel with a wait that is no number. -/
def MakesChannel (name : String) (args : List Value) (channel : String) : Prop :=
  name = "poll_message" ∧ requiredString args 0 "channel" = .ok channel ∧ ∃ text, optionalMillis args 1 = .error text

theorem MakesChannel.unique {name : String} {args : List Value} {n n' : String} (hm : MakesChannel name args n)
    (hm' : MakesChannel name args n') : n = n' := by
  have hsame := hm.2.1.symm.trans hm'.2.1
  cases hsame
  rfl

/-- A call that polls and fails has asked for the channel alone, if it has come to know which one. -/
theorem pollMessage_error {args : List Value} {said : Dialogue} {text : String}
    (h : (pollMessage args).Ends said (.error text)) : ArgumentError text ∧
      ((∀ channel, ¬ MakesChannel "poll_message" args channel) ∧ said = [] ∨
        ∃ channel, MakesChannel "poll_message" args channel ∧ said = [⟨.channel channel, ()⟩]) := by
  unfold pollMessage at h
  cases hchannel : requiredString args 0 "channel" with
  | error e =>
    rw [hchannel] at h
    cases h
    refine ⟨requiredString_error (by decide) hchannel, .inl ⟨?_, rfl⟩⟩
    rintro channel ⟨-, hok, -⟩
    rw [hchannel] at hok
    cases hok
  | ok channel =>
    rw [hchannel] at h
    obtain ⟨⟨⟩, rest, hsaid, hrest⟩ := h.of_demand
    cases hwait : optionalMillis args 1 with
    | error e =>
      rw [hwait] at hrest
      cases hrest
      exact ⟨optionalMillis_error hwait, .inr ⟨channel, ⟨rfl, hchannel, _, hwait⟩, hsaid⟩⟩
    | ok wait =>
      -- with both arguments the call ends well
      rw [hwait] at hrest
      cases wait with
      | none =>
        obtain ⟨_, _, _, hdone⟩ := Routine.Ends.of_demand hrest
        cases hdone
      | some millis =>
        obtain ⟨_, _, _, hdone⟩ := Routine.Ends.of_demand hrest
        cases hdone

/-- Of all functions, only that which polls has asked for anything when it cannot use its arguments. -/
theorem looksFirst_call {name : String} (hmem : name ∈ natives.names) (hname : name ≠ "poll_message")
    (args : List Value) : LooksFirst (natives.call name args) := by
  obtain ⟨⟨_, f⟩, hf, rfl⟩ := List.mem_map.1 hmem
  unfold Natives.call
  have hfind : Assoc.find? _ natives = some f := Assoc.find?_of_mem (Assoc.ascending_ofList _) hf
  rw [hfind]
  have hf := Assoc.mem_of_mem_ofList hf
  simp only [List.mem_cons, Prod.mk.injEq, List.not_mem_nil, or_false] at hf
  rcases hf with ⟨-, rfl⟩ | ⟨rfl, -⟩ | ⟨-, rfl⟩ | ⟨-, rfl⟩ | ⟨-, rfl⟩ | ⟨-, rfl⟩ | ⟨-, rfl⟩
  · exact looksFirst_postMessage args
  · exact absurd rfl hname
  · exact looksFirst_makeRequest args
  · exact looksFirst_openWebsocket args
  · exact looksFirst_sendWebsocketMessage args
  · exact looksFirst_closeWebsocket args
  · exact looksFirst_currentThread args

/-- What a failed call has asked for. -/
theorem said_of_error {name text : String} (hmem : name ∈ natives.names) {args : List Value} {said : Dialogue}
    (h : (natives.call name args).Ends said (.error text)) : (∃ e : Net.NetError, text = e.message) ∨
      ArgumentError text ∧ ((∀ channel, ¬ MakesChannel name args channel) ∧ said = [] ∨
        ∃ channel, MakesChannel name args channel ∧ said = [⟨.channel channel, ()⟩]) := by
  by_cases hname : name = "poll_message"
  · subst hname
    exact .inr (pollMessage_error h)
  · rcases looksFirst_call hmem hname args said text h with ⟨ht, hsaid⟩ | hnet
    · exact .inr ⟨ht, .inl ⟨fun channel hmakes => hname hmakes.1, hsaid⟩⟩
    · exact .inl hnet

end Library

/-! ## What becomes of the host -/

namespace Host

variable {α : Type} {seat : Seat} {h h' : Host} {p : Routine α} {a : α}

/-- A routine comes to its end on a host where nothing else moves meanwhile. -/
def Comes (seat : Seat) (h : Host) (p : Routine α) (h' : Host) (a : α) : Prop :=
  Relation.ReflTransGen (fun x y : Host × Activity α => x.2.step seat x.1 = some y) (h, .going p) (h', .done a)

theorem Comes.ends (hc : h.Comes seat p h' a) : ∃ said, p.Ends said a := by
  -- from the end of the run back to its start
  have hahead : ∀ x : Host × Activity α,
      Relation.ReflTransGen (fun x y => x.2.step seat x.1 = some y) x (h', .done a) → Ahead a x.2 := by
    intro x hx
    induction hx using Relation.ReflTransGen.head_induction_on with
    | refl => rfl
    | head hs _ ih => exact ih.of_step hs
  exact hahead _ hc

/-- The first move of a routine that comes to its end. -/
theorem Comes.first (hc : h.Comes seat p h' a) :
    ∃ y, (Activity.going p).step seat h = some y ∧
      Relation.ReflTransGen (fun x y : Host × Activity α => x.2.step seat x.1 = some y) y (h', .done a) := by
  rcases hc.cases_head with heq | hfirst
  · cases heq
  · exact hfirst

theorem Comes.of_done {b : α} (hc : h.Comes seat (.done b) h' a) : h' = h := by
  obtain ⟨y, hs, hrest⟩ := hc.first
  cases hs
  rcases hrest.cases_head with heq | ⟨z, hs, -⟩
  · cases heq
    rfl
  · cases hs

/-- Once a channel is asked for, it is there. -/
theorem Comes.of_channel {channel : String} {resume : Unit → Routine α}
    (hc : h.Comes seat (.ask (.channel channel) resume) h' a) :
    Comes seat { h with bus := h.bus.ensure channel } (resume ()) h' a := by
  obtain ⟨y, hs, hrest⟩ := hc.first
  cases hs
  exact hrest

open Library

/-- What a failed call makes of the host, unless it fails over the network. -/
theorem eq_of_error {name text : String} {args : List Value} (hmem : name ∈ natives.names)
    (hc : h.Comes seat (natives.call name args) h' (.error text)) : (∃ e : Net.NetError, text = e.message) ∨
      ArgumentError text ∧ ((∀ channel, ¬ MakesChannel name args channel) ∧ h' = h ∨
        ∃ channel, MakesChannel name args channel ∧ h' = { h with bus := h.bus.ensure channel }) := by
  obtain ⟨said, hends⟩ := hc.ends
  refine (said_of_error hmem hends).imp_right ?_
  rintro ⟨ht, hasked⟩
  refine ⟨ht, ?_⟩
  rcases hasked with ⟨hnone, rfl⟩ | ⟨channel, hmakes, rfl⟩
  · rw [hends.eq_done] at hc
    exact .inl ⟨hnone, hc.of_done⟩
  · refine .inr ⟨channel, hmakes, ?_⟩
    -- what is asked for is the channel, and the routine is at its end then
    generalize natives.call name args = p at hc hends
    cases hends with
    | ask hrest =>
      have hc := hc.of_channel
      rw [hrest.eq_done] at hc
      exact hc.of_done

/-- A call of the library fails either over the network or because it cannot use its arguments, and never for
both. In the second case it leaves the host as it was, unless it polls with a wait that is no number: then there
is the channel that it polls from, and all else is as it was. -/
theorem refused_makes_channel (seat : Seat) (h h' : Host) (name text : String) (args : List Value)
    (hmem : name ∈ natives.names) (hc : h.Comes seat (natives.call name args) h' (.error text)) :
    (ArgumentError text ↔ ∀ e : Net.NetError, text ≠ e.message) ∧
      (ArgumentError text →
        ((∀ n, ¬ MakesChannel name args n) → h' = h) ∧
        h' = { h with bus := h'.bus } ∧ (∀ n, h'.bus.channel n = h.bus.channel n) ∧
        ∀ n, n ∈ h'.bus.names ↔ n ∈ h.bus.names ∨ MakesChannel name args n) := by
  rcases eq_of_error hmem hc with ⟨e, rfl⟩ | ⟨ht, hhost⟩
  · have hnot := not_argumentError_message e
    exact ⟨⟨fun ht => absurd ht hnot, fun hne => absurd rfl (hne e)⟩, fun ht => absurd ht hnot⟩
  · refine ⟨⟨?_, fun _ => ht⟩, fun _ => ?_⟩
    · rintro - e rfl
      exact not_argumentError_message e ht
    · rcases hhost with ⟨hnone, rfl⟩ | ⟨channel, hmakes, rfl⟩
      · refine ⟨fun _ => rfl, rfl, fun _ => rfl, fun n => ?_⟩
        rw [or_iff_left (hnone n)]
      · refine ⟨fun hnone => absurd hmakes (hnone channel), rfl, Bus.channel_ensure h.bus channel, fun n => ?_⟩
        have hsame : n = channel ↔ MakesChannel name args n := by
          constructor
          · rintro rfl
            exact hmakes
          · intro hn
            exact hn.unique hmakes
        rw [← hsame, or_comm]
        exact Bus.mem_names_setChannel

/-- A post without an event fails so, and whatever it comes to is the host as it was. -/
theorem refused_post :
    plain.Comes { self := 0 } (natives.call "post_message" [.string "fresh"]) plain (.error "missing argument event") ∧
      ∀ h', plain.Comes { self := 0 } (natives.call "post_message" [.string "fresh"]) h'
        (.error "missing argument event") → h' = plain := by
  have hcall : natives.call "post_message" [.string "fresh"] = .done (.error "missing argument event") := rfl
  constructor
  · rw [hcall]
    exact .single rfl
  · intro h' hc
    have hrefused := (refused_makes_channel _ _ _ _ _ _ (by decide) hc).2 (.missing "event")
    refine hrefused.1 ?_
    rintro n ⟨hname, -, -⟩
    exact absurd hname (by decide)

/-- A poll with a wait that is no number fails, and there is a channel that was not there before. -/
theorem polled_into_being : "poll_message" ∈ natives.names ∧ ∃ h' : Host,
    plain.Comes { self := 0 } (natives.call "poll_message" [.string "fresh", .string "x"]) h'
      (.error "argument 1 must be milliseconds, got x") ∧
    ArgumentError "argument 1 must be milliseconds, got x" ∧ plain.bus.names = [] ∧ h'.bus.names = ["fresh"] := by
  have hcall : natives.call "poll_message" [.string "fresh", .string "x"] =
      .ask (.channel "fresh") fun _ => .done (.error "argument 1 must be milliseconds, got x") := rfl
  refine ⟨by decide, { plain with bus := plain.bus.ensure "fresh" }, ?_, .notMillis 1 (.string "x"), rfl, rfl⟩
  rw [hcall]
  exact .head rfl (.single rfl)

end Host

end Scripting
