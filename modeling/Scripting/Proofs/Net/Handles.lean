/-
Which handles streams get. Handles are counted up through all numbers of 32 bits and start again behind
the last, so any 2³² streams opened one after the other have handles of their own. The counter does not
look at the table of connections: what keeps a new handle out of the table is that whatever stands in it
was given out before (`Counted`), and the one earlier handle that the counter can come back to is that of
the stream opened 2³² streams before.
-/
import Mathlib.Algebra.Group.Nat.Defs
import Scripting.Host.Basic
import Scripting.Proofs.Acts
import Scripting.Proofs.Assoc
import Scripting.Proofs.Host.Events

namespace Scripting.Net

/-! ## The table of connections -/

/-- A move towards a wish enters no connection. -/
theorem Wish.mem_keys_of_step {w : Wish} {handle x : UInt32} {cs : Connections} {p : Wish.Phase}
    (hx : x ∈ Assoc.keys (w.step handle cs p).1) : x ∈ Assoc.keys cs := by
  have stored {c c' : Connection} (hc : Assoc.find? handle cs = some c)
      (hx : x ∈ Assoc.keys (Assoc.insert handle c' cs)) : x ∈ Assoc.keys cs := by
    rcases Assoc.mem_keys_insert.1 hx with rfl | hx
    · exact List.mem_map_of_mem (Assoc.mem_of_find? hc)
    · exact hx
  unfold step at hx
  split at hx
  · exact hx
  · exact hx
  · exact hx
  · rename_i c hc
    cases w with
    | send text => exact hx
    | close code reason => exact stored hc hx
  · rename_i c hc
    exact stored hc hx

theorem mem_keys_of_takeOutbound {cs cs' : Connections} {handle x : UInt32} {o : Outbound}
    (h : cs.takeOutbound handle = some (o, cs')) (hx : x ∈ Assoc.keys cs') : x ∈ Assoc.keys cs := by
  unfold Connections.takeOutbound at h
  split at h
  · rename_i rest closing hc
    cases h
    rcases Assoc.mem_keys_insert.1 hx with rfl | hx
    · exact List.mem_map_of_mem (Assoc.mem_of_find? hc)
    · exact hx
  · cases h

theorem Client.mem_openHandles_forget {c : Client} {handle x : UInt32} (hx : x ∈ (c.forget handle).openHandles) :
    x ∈ c.openHandles := by
  obtain ⟨e, he, rfl⟩ := List.mem_map.1 hx
  exact List.mem_map_of_mem (Assoc.mem_erase.1 he).1

theorem Client.mem_openHandles_register {c : Client} {x : UInt32} :
    x ∈ c.register.2.openHandles ↔ x = c.nextHandle ∨ x ∈ c.openHandles := Assoc.mem_keys_insert

/-! ## Opening -/

/-- A stream that cannot be opened leaves the host as reading the settings does; one that can gets the next
handle. -/
theorem openStream_cases (h : Host) (c : StreamCall) :
    (∃ e, prepareStream (Settings.read h.client.preferences).2 c = .error e ∧
      h.openStream c = (.error e, h.settings.2)) ∨
    ∃ request k, prepareStream (Settings.read h.client.preferences).2 c = .ok request ∧
      h.openStream c = (.ok h.client.nextHandle, k) ∧ k.client = h.client.register.2 ∧ k.bus = h.bus := by
  unfold Host.openStream Host.settings
  cases hp : prepareStream (Settings.read h.client.preferences).2 c with
  | error e => exact .inl ⟨e, rfl, by simp only [hp]⟩
  | ok request =>
    refine .inr ⟨request, { h.settings.2 with
      client := h.client.register.2
      threads := h.threads ++ [.stream request { handle := h.client.nextHandle, channel := c.channel }] },
      rfl, ?_, rfl, rfl⟩
    simp only [hp]
    rfl

/-! ## Any number of streams -/

/-- A host with the handles that it has given out so far, in order. -/
structure Reception where
  host : Host
  given : List UInt32 := []

namespace Reception

inductive Act where
  /-- Somebody opens a stream. -/
  | openStream (c : StreamCall)
  /-- Somebody comes a move closer to sending on a handle or closing it. -/
  | wish (handle : UInt32) (w : Wish) (p : Wish.Phase)
  /-- The stream of a handle takes what waits to be sent. -/
  | take (handle : UInt32)
  /-- The stream of a handle tells its channel something, or is over and has its handle forgotten. -/
  | carryOut (channel : String) (handle : UInt32) (e : Stream.Effect)
  /-- Somebody changes the preferences. -/
  | prefer (p : Preferences)

def setConnections (s : Reception) (connections : Connections) : Reception :=
  { s with host := { s.host with client := { s.host.client with connections } } }

def step (s : Reception) : Act → Option Reception
  | .openStream c =>
    match s.host.openStream c with
    | (.ok handle, host) => some { host, given := s.given ++ [handle] }
    | (.error _, host) => some { s with host }
  | .wish handle w p => some (s.setConnections (w.step handle s.host.client.connections p).1)
  | .take handle => (s.host.client.connections.takeOutbound handle).map fun (_, cs) => s.setConnections cs
  | .carryOut channel handle e => some { s with host := s.host.applyEffect channel handle e }
  | .prefer preferences =>
    some { s with host := { s.host with client := { s.host.client with preferences } } }

/-- Acts lead from one state to another. -/
def Leads : Reception → Reception → Prop := Relation.ReflTransGen fun s s' => ∃ a, s.step a = some s'

/-- No stream has been opened. -/
structure Fresh (s : Reception) : Prop where
  connections : s.host.client.connections = []
  given : s.given = []

/-- What an act does to the table and the counter: it opens a stream, or it enters nothing. -/
theorem step_cases {s s' : Reception} {a : Act} (hs : s.step a = some s') :
    (s'.given = s.given ++ [s.host.client.nextHandle] ∧ s'.host.client = s.host.client.register.2) ∨
    (s'.given = s.given ∧ s'.host.client.nextHandle = s.host.client.nextHandle ∧
      ∀ x ∈ s'.host.client.openHandles, x ∈ s.host.client.openHandles) := by
  cases a with
  | openStream c =>
    unfold step at hs
    rcases openStream_cases s.host c with ⟨e, -, ho⟩ | ⟨request, k, -, ho, hk, -⟩
    · simp only [ho] at hs
      cases hs
      exact .inr ⟨rfl, rfl, fun x hx => hx⟩
    · simp only [ho] at hs
      cases hs
      exact .inl ⟨rfl, hk⟩
  | wish handle w p =>
    cases hs
    exact .inr ⟨rfl, rfl, fun x hx => Wish.mem_keys_of_step hx⟩
  | take handle =>
    obtain ⟨⟨o, cs⟩, ht, hs⟩ := Option.map_eq_some_iff.1 hs
    cases hs
    exact .inr ⟨rfl, rfl, fun x hx => mem_keys_of_takeOutbound ht hx⟩
  | carryOut channel handle e =>
    cases hs
    cases e with
    | forget => exact .inr ⟨rfl, rfl, fun x hx => Client.mem_openHandles_forget hx⟩
    | post event params => exact .inr ⟨rfl, rfl, fun x hx => hx⟩
    | log e => exact .inr ⟨rfl, rfl, fun x hx => hx⟩
  | prefer p =>
    cases hs
    exact .inr ⟨rfl, rfl, fun x hx => hx⟩

/-! ## The counter and the table -/

/-- The handle of the stream of a number, counted from the first. -/
def numbered (start : UInt32) (i : Nat) : UInt32 := start + UInt32.ofNat i

theorem numbered_eq_iff {start : UInt32} {i j : Nat} :
    numbered start i = numbered start j ↔ i % 2 ^ 32 = j % 2 ^ 32 := by
  unfold numbered
  rw [UInt32.add_right_inj, ← UInt32.toNat_inj, UInt32.toNat_ofNat', UInt32.toNat_ofNat']

theorem numbered_succ (start : UInt32) (i : Nat) : numbered start (i + 1) = numbered start i + 1 := by
  unfold numbered
  rw [UInt32.ofNat_add, UInt32.add_assoc]
  rfl

/-- The handles given out are counted up from the first, the counter stands behind the last of them, and
every handle in the table is one of them. -/
structure Counted (start : UInt32) (s : Reception) : Prop where
  given : s.given = (List.range s.given.length).map (numbered start)
  next : s.host.client.nextHandle = numbered start s.given.length
  known : ∀ x ∈ s.host.client.openHandles, x ∈ s.given

theorem counted_of_fresh {s : Reception} (hf : s.Fresh) : Counted s.host.client.nextHandle s := by
  refine ⟨by rw [hf.given]; rfl, ?_, fun x hx => ?_⟩
  · rw [hf.given]
    simp [numbered]
  · unfold Client.openHandles at hx
    rw [hf.connections] at hx
    cases hx

theorem Counted.step {start : UInt32} {s s' : Reception} {a : Act} (hc : Counted start s) (hs : s.step a = some s') :
    Counted start s' := by
  rcases step_cases hs with ⟨hg, hk⟩ | ⟨hg, hn, hsub⟩
  · refine ⟨?_, ?_, fun x hx => ?_⟩
    · rw [hg, List.length_append, List.length_singleton, List.range_succ, List.map_append, ← hc.given]
      simp [hc.next]
    · rw [hk, hg, List.length_append, List.length_singleton, numbered_succ, ← hc.next]
      rfl
    · rw [hk] at hx
      rw [hg, List.mem_append, List.mem_singleton]
      rcases Client.mem_openHandles_register.1 hx with hx | hx
      · exact .inr hx
      · exact .inl (hc.known x hx)
  · exact ⟨by rw [hg]; exact hc.given, by rw [hg, hn]; exact hc.next, fun x hx => by
      rw [hg]; exact hc.known x (hsub x hx)⟩

theorem counted_of_leads {s0 s : Reception} (hf : s0.Fresh) (hl : s0.Leads s) :
    Counted s0.host.client.nextHandle s := by
  induction hl with
  | refl => exact counted_of_fresh hf
  | tail _ hs ih =>
    obtain ⟨a, hs⟩ := hs
    exact ih.step hs

theorem Counted.getElem? {start : UInt32} {s : Reception} (hc : Counted start s) {i : Nat} (hi : i < s.given.length) :
    s.given[i]? = some (numbered start i) := by
  rw [hc.given, List.getElem?_map, List.getElem?_range hi]
  rfl

/-- The handle of the stream opened 2³² streams before the next one. -/
def outlived? (s : Reception) : Option UInt32 :=
  if 2 ^ 32 ≤ s.given.length then s.given[s.given.length - 2 ^ 32]? else none

/-- The next handle is in the table exactly if the stream opened 2³² streams before has its handle there. -/
theorem Counted.next_mem_iff {start : UInt32} {s : Reception} (hc : Counted start s) :
    s.host.client.nextHandle ∈ s.host.client.openHandles ↔
      ∃ old, s.outlived? = some old ∧ old ∈ s.host.client.openHandles := by
  have hold (hn : 2 ^ 32 ≤ s.given.length) : s.outlived? = some s.host.client.nextHandle := by
    unfold outlived?
    rw [if_pos hn, hc.getElem? (by omega), hc.next, Option.some.injEq, numbered_eq_iff]
    omega
  constructor
  · intro hx
    have hg := hc.known _ hx
    rw [hc.given, List.mem_map] at hg
    obtain ⟨i, hi, heq⟩ := hg
    rw [List.mem_range] at hi
    rw [hc.next, numbered_eq_iff] at heq
    -- two counts below one another that leave the same handle are at least 2³² apart
    exact ⟨_, hold (by omega), hx⟩
  · rintro ⟨old, ho, hx⟩
    have hn : 2 ^ 32 ≤ s.given.length := by
      unfold outlived? at ho
      split at ho
      · assumption
      · cases ho
    rw [hold hn] at ho
    cases ho
    exact hx

/-- Whatever was opened, closed and forgotten before, a stream that cannot be opened leaves the counter, the
table and the bus as they are. One that can is entered under the next handle, which is one that was counted
up to from the first; it takes the place of a live connection exactly if that of the stream opened 2³²
streams before is still in the table. -/
theorem handle_new_unless_outlived {s0 s : Reception} (hf : s0.Fresh) (hl : s0.Leads s) (c : StreamCall) :
    (∀ e k, s.host.openStream c = (.error e, k) → k = s.host.settings.2 ∧ k.client = s.host.client ∧ k.bus = s.host.bus) ∧
    ∀ handle k, s.host.openStream c = (.ok handle, k) →
      handle = numbered s0.host.client.nextHandle s.given.length ∧
      k.client.connections = Assoc.insert handle {} s.host.client.connections ∧ k.bus = s.host.bus ∧
      (handle ∈ s.host.client.openHandles ↔ ∃ old, s.outlived? = some old ∧ old ∈ s.host.client.openHandles) := by
  have hc := counted_of_leads hf hl
  rcases openStream_cases s.host c with ⟨e, -, ho⟩ | ⟨request, k, -, ho, hk, hb⟩
  · rw [ho]
    constructor
    · rintro e' k' ⟨⟩
      exact ⟨rfl, rfl, rfl⟩
    · rintro handle k' ⟨⟩
  · rw [ho]
    constructor
    · rintro e' k' ⟨⟩
    · rintro handle k' ⟨⟩
      exact ⟨hc.next, by rw [hk]; rfl, hb, hc.next_mem_iff⟩

/-! ## A long run -/

/-- A host on which streams can be opened, and none has been. -/
def quiet : Reception where
  host := { Host.plain with client := { preferences := [(Key.baseUrl, "http://h")] } }

def news : StreamCall := { path := "news", channel := "c" }

/-- The request of that stream. -/
def newsRequest : StreamRequest where
  url := { scheme := "ws", host := some "h", path := .segments ["news"] }
  connectTimeout := 10000

theorem prepareStream_news : prepareStream (Settings.read [(Key.baseUrl, "http://h")]).2 news = .ok newsRequest := by
  decide +kernel

theorem fresh_quiet : quiet.Fresh := ⟨rfl, rfl⟩

theorem step_news {s : Reception} (hp : s.host.client.preferences = [(Key.baseUrl, "http://h")]) :
    ∃ k, s.host.openStream news = (.ok s.host.client.nextHandle, k) ∧ k.client = s.host.client.register.2 ∧
      s.step (.openStream news) = some { host := k, given := s.given ++ [s.host.client.nextHandle] } := by
  rcases openStream_cases s.host news with ⟨e, hn, -⟩ | ⟨request, k, -, ho, hk, -⟩
  · rw [hp, prepareStream_news] at hn
    cases hn
  · refine ⟨k, ho, hk, ?_⟩
    unfold step
    simp only [ho]

/-- The second stream gets a handle of its own. -/
theorem second_stream : ∃ s k, quiet.Leads s ∧ s.given = [1] ∧ s.host.openStream news = (.ok 2, k) ∧
    2 ∉ s.host.client.openHandles := by
  obtain ⟨k, -, hk, hs⟩ := step_news (s := quiet) rfl
  obtain ⟨k2, ho, -, -⟩ := step_news (s := { host := k, given := [1] }) (by rw [hk]; rfl)
  have hl : quiet.Leads { host := k, given := [1] } := .single ⟨_, hs⟩
  have hnext : k.client.nextHandle = 2 := by rw [hk]; rfl
  simp only [hnext] at ho
  obtain ⟨-, hopened⟩ := handle_new_unless_outlived fresh_quiet hl news
  obtain ⟨-, -, -, hmem⟩ := hopened 2 k2 ho
  refine ⟨_, k2, hl, rfl, ho, fun hx => ?_⟩
  obtain ⟨old, hold, -⟩ := hmem.1 hx
  cases hold

/-- As many streams can be opened as one likes, all of which stay open. -/
theorem all_stay (n : Nat) : ∃ s, quiet.Leads s ∧ s.given.length = n ∧
    s.host.client.preferences = [(Key.baseUrl, "http://h")] ∧ ∀ x ∈ s.given, x ∈ s.host.client.openHandles := by
  induction n with
  | zero => exact ⟨quiet, .refl, rfl, rfl, nofun⟩
  | succ n ih =>
    obtain ⟨s, hl, hn, hp, hall⟩ := ih
    obtain ⟨k, -, hk, hs⟩ := step_news hp
    refine ⟨_, hl.tail ⟨_, hs⟩, ?_, ?_, fun x hx => ?_⟩
    · rw [List.length_append, hn]
      rfl
    · simp only [hk]
      exact hp
    · simp only [hk]
      rw [Client.mem_openHandles_register]
      rcases List.mem_append.1 hx with hx | hx
      · exact .inr (hall x hx)
      · exact .inl (List.mem_singleton.1 hx)

/-- Behind 2³² streams that stay open, the next one takes the place of the first. -/
theorem takes_live_place : ∃ s handle k, quiet.Leads s ∧ s.host.openStream news = (.ok handle, k) ∧
    handle ∈ s.host.client.openHandles := by
  obtain ⟨s, hl, hn, hp, hall⟩ := all_stay (2 ^ 32)
  obtain ⟨k, ho, -, -⟩ := step_news hp
  have hc := counted_of_leads fresh_quiet hl
  refine ⟨s, _, k, hl, ho, hc.next_mem_iff.2 ⟨numbered quiet.host.client.nextHandle 0, ?_, ?_⟩⟩
  · unfold outlived?
    rw [hn, if_pos (Nat.le_refl _), Nat.sub_self]
    exact hc.getElem? (by omega)
  · exact hall _ (List.mem_of_getElem? (hc.getElem? (by omega)))

end Reception

end Scripting.Net
