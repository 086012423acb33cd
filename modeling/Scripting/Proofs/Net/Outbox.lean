/-
What waits on one connection. Any number of callers send on a handle and close it, move by move and in
any order, while the stream sends the oldest thing that waits, fails or ends. The queue gets one close at
most, since only the caller that set the mark of closing queues one; and a caller that looks at the mark
after that queues nothing, so what joins the queue later is of callers that had looked before. What the
other side was offered is the front of what was queued.
-/
import Scripting.Net.Stream
import Scripting.Proofs.Acts
import Scripting.Proofs.Assoc
import Mathlib.Data.List.Count
import Mathlib.Data.List.Perm.Subperm
import Mathlib.Logic.Relation

namespace Scripting.Net

/-! ## Wishes -/

/-- The moves towards a wish: the connection before and after, where it is there, and the phases. -/
inductive Wish.Moves (w : Wish) : Option Connection → Wish.Phase → Option Connection → Wish.Phase → Prop
  | rest (c : Option Connection) (r : Bool) : Moves w c (.done r) c (.done r)
  | miss {p : Wish.Phase} : (∀ r, p ≠ .done r) → Moves w none p none (.done false)
  | find (c : Connection) : Moves w (some c) .start (some c) .found
  | refuse {text : String} {c : Connection} : w = .send text → c.closing = true →
      Moves w (some c) .found (some c) (.done false)
  | repeat {code : UInt16} {reason : String} {c : Connection} : w = .close code reason → c.closing = true →
      Moves w (some c) .found (some c) (.done true)
  | pass {text : String} {c : Connection} : w = .send text → c.closing = false →
      Moves w (some c) .found (some c) .allowed
  | mark {code : UInt16} {reason : String} {c : Connection} : w = .close code reason → c.closing = false →
      Moves w (some c) .found (some { c with closing := true }) .allowed
  | join (c : Connection) :
      Moves w (some c) .allowed (some { c with outbound := c.outbound ++ [w.outbound] }) (.done true)

theorem Wish.moves_of_step (w : Wish) (handle : UInt32) (cs : Connections) (p : Wish.Phase) :
    w.Moves (Assoc.find? handle cs) p (Assoc.find? handle (w.step handle cs p).1) (w.step handle cs p).2 := by
  unfold step
  cases hc : Assoc.find? handle cs with
  | none =>
    cases p with
    | done r => simp only [hc]; exact .rest _ r
    | start | found | allowed => simp only [hc]; exact .miss nofun
  | some c =>
    cases p with
    | done r => simp only [hc]; exact .rest _ r
    | start => simp only [hc]; exact .find c
    | allowed => simp only [Assoc.find?_insert_self]; exact .join c
    | found =>
      cases w with
      | send text =>
        simp only [hc]
        cases hcl : c.closing with
        | true => exact .refuse rfl hcl
        | false => exact .pass rfl hcl
      | close code reason =>
        simp only [Assoc.find?_insert_self]
        cases hcl : c.closing with
        | true =>
          have hsame : ({ c with closing := true } : Connection) = c := by rw [← hcl]
          rw [hsame]
          exact .repeat rfl hcl
        | false => exact .mark rfl hcl

/-- What joins the queue by a move. -/
def Wish.joins (w : Wish) (p p' : Wish.Phase) : List Outbound :=
  if p = .allowed ∧ p' = .done true then [w.outbound] else []

/-- What a caller is about to put in the queue. -/
def Wish.ahead (w : Wish) (p : Wish.Phase) : List Outbound := if p = .allowed then [w.outbound] else []

def Outbound.isClose : Outbound → Bool
  | .close .. => true
  | .text _ => false

namespace Wish

variable {w : Wish} {c c' : Option Connection} {p p' : Phase}

theorem Moves.outbound (hm : w.Moves c p c' p') {x' : Connection} (hx : c' = some x') :
    ∃ x, c = some x ∧ x'.outbound = x.outbound ++ w.joins p p' := by
  cases hm with
  | rest _ r => exact ⟨x', hx, by simp [joins]⟩
  | miss => cases hx
  | find x | refuse | «repeat» | pass | mark | join => cases hx; exact ⟨_, rfl, by simp [joins]⟩

/-- A send that is accepted is a text that joins the queue. -/
theorem Moves.accepted (hm : w.Moves c p c' p') (text : String) :
    (w.joins p p').count (.text text) + (if (w, p) = (.send text, .done true) then 1 else 0) =
      if (w, p') = (.send text, .done true) then 1 else 0 := by
  cases hm with
  | rest _ r => simp [joins]
  | miss h => simp [joins, h]
  | find | refuse | pass | mark => simp [joins]
  | «repeat» h => simp [joins, h]
  | join => cases w <;> simp [joins, Wish.outbound, List.count_singleton]

/-- Only the move that sets the mark of closing brings a close about. -/
theorem Moves.closes (hm : w.Moves c p c' p') :
    ((w.joins p p' ++ w.ahead p').countP Outbound.isClose ≤ (w.ahead p).countP Outbound.isClose ∧
      ∀ x', c' = some x' → ∃ x, c = some x ∧ x'.closing = x.closing) ∨
    (∃ x x', c = some x ∧ x.closing = false ∧ c' = some x' ∧ x'.closing = true ∧
      (w.joins p p' ++ w.ahead p').countP Outbound.isClose = 1) := by
  cases hm with
  | rest _ r => exact .inl ⟨by simp [joins, ahead], fun x' hx => ⟨x', hx, rfl⟩⟩
  | miss => exact .inl ⟨by simp [joins, ahead], nofun⟩
  | find | refuse | «repeat» | join => exact .inl ⟨by simp [joins, ahead], fun x' hx => by cases hx; exact ⟨_, rfl, rfl⟩⟩
  | pass h => exact .inl ⟨by simp [joins, ahead, h, Wish.outbound, Outbound.isClose], fun x' hx => ⟨x', hx, rfl⟩⟩
  | mark h hcl => exact .inr ⟨_, _, rfl, hcl, rfl, rfl, by simp [joins, ahead, h, Wish.outbound, Outbound.isClose]⟩

/-- Behind the mark of closing nobody is allowed into the queue any more, and the mark stays. -/
theorem Moves.marked (hm : w.Moves c p c' p') (hc : ∀ x, c = some x → x.closing = true) :
    (∀ x', c' = some x' → x'.closing = true) ∧ (w.joins p p' ++ w.ahead p').Sublist (w.ahead p) ∧
    ∀ text, w = .send text → p' = .allowed ∨ p' = .done true → p = .allowed ∨ p = p' := by
  cases hm with
  | rest _ r => exact ⟨hc, by simp [joins, ahead], fun _ _ _ => .inr rfl⟩
  | miss => exact ⟨nofun, by simp [joins, ahead], fun _ _ h => by simp at h⟩
  | find | refuse => exact ⟨hc, by simp [joins, ahead], fun _ _ h => by simp at h⟩
  | «repeat» h => exact ⟨hc, by simp [joins, ahead], fun _ hw => by rw [h] at hw; cases hw⟩
  | pass _ hcl | mark _ hcl =>
    rw [hc _ rfl] at hcl
    cases hcl
  | join x =>
    refine ⟨fun x' hx => ?_, by simp [joins, ahead], fun _ _ _ => .inl rfl⟩
    cases hx
    exact hc x rfl

end Wish

/-! ## The outbox -/

/-- A stream with those who send on its handle and close it. -/
structure Outbox where
  stream : Stream
  connections : Connections
  callers : List (Wish × Wish.Phase) := []
  /-- All that has joined the queue, oldest first. -/
  queued : List Outbound := []
  /-- All that the stream has sent, or has tried to. -/
  offered : List Outbound := []

namespace Outbox

inductive Act where
  /-- A caller comes. -/
  | ask (w : Wish)
  /-- A caller makes a move. -/
  | goOn (i : Nat)
  /-- Something happens to the stream. -/
  | hear (i : Stream.Input)
  /-- Other handles come, go and are used. -/
  | elsewhere (cs : Connections)

def connection? (s : Outbox) : Option Connection := Assoc.find? s.stream.handle s.connections

/-- Whether a caller has found the connection and still holds on to it. -/
def isHeld (s : Outbox) : Bool := s.callers.any fun (_, p) => p == .found || p == .allowed

/-- Whether the connection of a stream is forgotten when something happens to the stream. -/
def forgets (s : Stream) (i : Stream.Input) : Bool := (s.step i).2.any (· matches .forget)

/-- The outbox behind something that happened to the stream, with what it took out of the queue. -/
def heard (s : Outbox) (i : Stream.Input) (cs : Connections) (sent : List Outbound) : Outbox := { s with
  stream := (s.stream.step i).1
  connections := if forgets s.stream i then Assoc.erase s.stream.handle cs else cs
  offered := s.offered ++ sent }

/-- The outbox after an act; none where whoever acts has to wait. A stream that ends waits until no caller
holds on to its connection. -/
def step (s : Outbox) : Act → Option Outbox
  | .ask w => some { s with callers := s.callers ++ [(w, .start)] }
  | .goOn i => (s.callers[i]?).map fun (w, p) =>
      let (connections, p') := w.step s.stream.handle s.connections p
      { s with connections, callers := s.callers.set i (w, p'), queued := s.queued ++ w.joins p p' }
  | .hear i =>
    if forgets s.stream i && s.isHeld then none
    else match s.stream.phase, i with
      | .open _, .sent _ =>
        (s.connections.takeOutbound s.stream.handle).map fun (o, cs) => s.heard i cs [o]
      | _, _ => some (s.heard i s.connections [])
  | .elsewhere connections =>
    if Assoc.find? s.stream.handle connections = s.connection? then some { s with connections } else none

/-- Acts lead from one state of the outbox to another. -/
def Leads : Outbox → Outbox → Prop := Relation.ReflTransGen fun s s' => ∃ a, s.step a = some s'

/-- The handle has just been given out. -/
structure Fresh (s : Outbox) : Prop where
  connection : s.connection? = some {}
  callers : s.callers = []
  queued : s.queued = []
  offered : s.offered = []

/-- What the callers that are about to join the queue will put there. -/
def pending (s : Outbox) : List Outbound :=
  s.callers.filterMap fun (w, p) => if p = .allowed then some w.outbound else none

/-! ## What an act does -/

/-- A caller makes a move. -/
structure Turn (s s' : Outbox) (i : Nat) (w : Wish) (p p' : Wish.Phase) : Prop where
  moves : w.Moves s.connection? p s'.connection? p'
  was : s.callers[i]? = some (w, p)
  callers : s'.callers = s.callers.set i (w, p')
  queued : s'.queued = s.queued ++ w.joins p p'
  offered : s'.offered = s.offered
  stream : s'.stream = s.stream

/-- No caller makes a move; one may come, the stream may send what waits, and the connection may go. -/
structure Rest (s s' : Outbox) : Prop where
  callers : s'.callers = s.callers ∨ ∃ w, s'.callers = s.callers ++ [(w, .start)]
  queued : s'.queued = s.queued
  closing : ∀ c', s'.connection? = some c' → ∃ c, s.connection? = some c ∧ c'.closing = c.closing
  sends : ∃ sent, s'.offered = s.offered ++ sent ∧
    (sent = [] ∨ ∃ c, s.connection? = some c ∧ sent <+: c.outbound) ∧
    ∀ c', s'.connection? = some c' → ∀ c, s.connection? = some c → sent ++ c'.outbound = c.outbound

theorem takeOutbound_eq_some {cs cs' : Connections} {handle : UInt32} {o : Outbound}
    (h : cs.takeOutbound handle = some (o, cs')) : ∃ c rest, Assoc.find? handle cs = some c ∧ c.outbound = o :: rest ∧
      cs' = Assoc.insert handle { c with outbound := rest } cs := by
  unfold Connections.takeOutbound at h
  split at h
  · rename_i rest closing hc
    cases h
    exact ⟨_, rest, hc, rfl, rfl⟩
  · cases h

theorem stream_handle (s : Stream) (i : Stream.Input) : (s.step i).1.handle = s.handle := by
  unfold Stream.step Stream.finish
  split <;> rfl

/-- A connection that is there behind something that happened to the stream. -/
theorem connection?_heard {s : Outbox} {i : Stream.Input} {cs : Connections} {sent : List Outbound} {c : Connection}
    (h : (s.heard i cs sent).connection? = some c) : Assoc.find? s.stream.handle cs = some c := by
  unfold connection? heard at h
  rw [stream_handle] at h
  split at h
  · rw [Assoc.find?_erase_self] at h
    cases h
  · exact h

theorem step_cases {s s' : Outbox} {a : Act} (hs : s.step a = some s') :
    (∃ i w p p', s.Turn s' i w p p') ∨ s.Rest s' := by
  cases a with
  | ask w =>
    cases hs
    exact .inr ⟨.inr ⟨w, rfl⟩, rfl, fun c' hc => ⟨c', hc, rfl⟩, [], (List.append_nil _).symm, .inl rfl,
      fun c' hc' c hc => by rw [show s.connection? = some c' from hc'] at hc; cases hc; rfl⟩
  | goOn i =>
    obtain ⟨⟨w, p⟩, hw, hs⟩ := Option.map_eq_some_iff.1 hs
    cases hs
    exact .inl ⟨i, w, p, _, w.moves_of_step _ _ p, hw, rfl, rfl, rfl, rfl⟩
  | hear i =>
    simp only [step] at hs
    split at hs
    · cases hs
    split at hs
    · -- the oldest thing is taken out of the queue
      obtain ⟨⟨o, cs⟩, ho, hs⟩ := Option.map_eq_some_iff.1 hs
      obtain ⟨c, rest, hc, hout, rfl⟩ := takeOutbound_eq_some ho
      cases hs
      have hafter {c' : Connection} {i : Stream.Input} (hc' : (s.heard i
          (Assoc.insert s.stream.handle { c with outbound := rest } s.connections) [o]).connection? = some c') :
          c' = { c with outbound := rest } := by
        have h := connection?_heard hc'
        rw [Assoc.find?_insert_self, Option.some.injEq] at h
        exact h.symm
      refine .inr ⟨.inl rfl, rfl, fun c' hc' => ⟨c, hc, by rw [hafter hc']⟩, [o], rfl, .inr ⟨c, hc, rest, hout.symm⟩,
        fun c' hc' c0 hc0 => ?_⟩
      rw [show s.connection? = some c from hc] at hc0
      cases hc0
      rw [hafter hc', hout]
      rfl
    · cases hs
      refine .inr ⟨.inl rfl, rfl, fun c' hc' => ⟨c', connection?_heard hc', rfl⟩, [], rfl, .inl rfl, fun c' hc' c hc => ?_⟩
      rw [show s.connection? = some c' from connection?_heard hc'] at hc
      cases hc
      rfl
  | elsewhere cs =>
    simp only [step] at hs
    split at hs
    · rename_i hc
      cases hs
      refine .inr ⟨.inl rfl, rfl, fun c' hc' => ⟨c', hc.symm.trans hc', rfl⟩, [], (List.append_nil _).symm, .inl rfl,
        fun c' hc' c hc0 => ?_⟩
      rw [← hc, show Assoc.find? s.stream.handle cs = some c' from hc'] at hc0
      cases hc0
      rfl
    · cases hs

/-! ## Counting -/

section

variable {s s' : Outbox} {i : Nat} {w : Wish} {p p' : Wish.Phase}

theorem split_of_getElem? {α : Type} {l : List α} {i : Nat} {a : α} (h : l[i]? = some a) :
    ∃ before after, l = before ++ a :: after ∧ ∀ b, l.set i b = before ++ b :: after := by
  obtain ⟨hi, rfl⟩ := List.getElem?_eq_some_iff.1 h
  refine ⟨l.take i, l.drop (i + 1), ?_, fun b => List.set_eq_take_append_cons_drop.trans (if_pos hi)⟩
  rw [← List.drop_eq_getElem_cons hi, List.take_append_drop]

/-- By a turn only the caller whose turn it was changes what is pending. -/
theorem Turn.pending (ht : s.Turn s' i w p p') :
    ∃ others, s.pending.Perm (w.ahead p ++ others) ∧ s'.pending.Perm (w.ahead p' ++ others) := by
  obtain ⟨before, after, hl, hset⟩ := split_of_getElem? ht.was
  let due : Wish × Wish.Phase → Option Outbound := fun (w, p) => if p = .allowed then some w.outbound else none
  have hdue (q : Wish.Phase) : (before ++ (w, q) :: after).filterMap due =
      before.filterMap due ++ (w.ahead q ++ after.filterMap due) := by
    rw [List.filterMap_append, List.filterMap_cons]
    unfold Wish.ahead
    by_cases hq : q = .allowed <;> simp [due, hq]
  have hperm (q : Wish.Phase) : ((before ++ (w, q) :: after).filterMap due).Perm
      (w.ahead q ++ (before.filterMap due ++ after.filterMap due)) := by
    rw [hdue, ← List.append_assoc, ← List.append_assoc]
    exact List.perm_append_comm.append_right _
  refine ⟨before.filterMap due ++ after.filterMap due, ?_, ?_⟩
  · have h := hperm p
    rw [← hl] at h
    exact h
  · have h := hperm p'
    rw [← hset (w, p'), ← ht.callers] at h
    exact h

/-- By a turn only the caller whose turn it was is counted otherwise. -/
theorem Turn.count (ht : s.Turn s' i w p p') (x : Wish × Wish.Phase) :
    s'.callers.count x + (if (w, p) = x then 1 else 0) = s.callers.count x + if (w, p') = x then 1 else 0 := by
  obtain ⟨before, after, hl, hset⟩ := split_of_getElem? ht.was
  rw [ht.callers, hset (w, p'), hl, List.count_append, List.count_append, List.count_cons, List.count_cons]
  simp only [beq_iff_eq]
  omega

end

/-! ## The invariant -/

structure Lawful (s : Outbox) : Prop where
  front : s.offered <+: s.queued
  waiting : ∀ c, s.connection? = some c → s.queued = s.offered ++ c.outbound
  counted : ∀ text, s.queued.count (.text text) = s.callers.count (.send text, .done true)
  one : s.queued.countP Outbound.isClose + s.pending.countP Outbound.isClose ≤ 1
  unmarked : ∀ c, s.connection? = some c → c.closing = false → s.queued.countP Outbound.isClose + s.pending.countP Outbound.isClose = 0

section

variable {s s' : Outbox}

theorem lawful_fresh (hf : s.Fresh) : s.Lawful := by
  have hp : s.pending = [] := by
    unfold pending
    rw [hf.callers]
    rfl
  refine ⟨?_, fun c hc => ?_, fun text => ?_, ?_, fun c _ _ => ?_⟩
  · rw [hf.offered]; exact List.nil_prefix
  · rw [hf.connection] at hc
    cases hc
    rw [hf.queued, hf.offered]
    rfl
  · rw [hf.queued, hf.callers]; rfl
  · rw [hf.queued, hp]; exact Nat.zero_le _
  · rw [hf.queued, hp]; rfl

theorem Rest.pending (hr : s.Rest s') : s'.pending = s.pending := by
  unfold Outbox.pending
  rcases hr.callers with h | ⟨w, h⟩ <;> rw [h]
  rw [List.filterMap_append]
  exact List.append_nil _

theorem Lawful.rest (hs : s.Lawful) (hr : s.Rest s') : s'.Lawful := by
  obtain ⟨sent, hoff, hsent, hback⟩ := hr.sends
  refine ⟨?_, fun c' hc' => ?_, fun text => ?_, ?_, fun c' hc' hcl => ?_⟩
  · rw [hr.queued, hoff]
    rcases hsent with rfl | ⟨c, hc, hfront⟩
    · rw [List.append_nil]; exact hs.front
    · rw [hs.waiting c hc]
      exact (List.prefix_append_right_inj _).2 hfront
  · obtain ⟨c, hc, -⟩ := hr.closing c' hc'
    rw [hr.queued, hoff, List.append_assoc, hback c' hc' c hc]
    exact hs.waiting c hc
  · rw [hr.queued, hs.counted]
    rcases hr.callers with h | ⟨w, h⟩ <;> rw [h]
    rw [List.count_append, List.count_singleton]
    simp
  · rw [hr.queued, hr.pending]; exact hs.one
  · obtain ⟨c, hc, hsame⟩ := hr.closing c' hc'
    rw [hr.queued, hr.pending]
    exact hs.unmarked c hc (hsame ▸ hcl)

theorem Lawful.turn {i : Nat} {w : Wish} {p p' : Wish.Phase} (hs : s.Lawful) (ht : s.Turn s' i w p p') : s'.Lawful := by
  obtain ⟨others, hp, hp'⟩ := ht.pending
  have hcount : s'.queued.countP Outbound.isClose + s'.pending.countP Outbound.isClose =
      s.queued.countP Outbound.isClose + (w.joins p p' ++ w.ahead p').countP Outbound.isClose +
        others.countP Outbound.isClose := by
    rw [ht.queued, hp'.countP_eq, List.countP_append, List.countP_append, List.countP_append]
    omega
  have hbefore : s.pending.countP Outbound.isClose =
      (w.ahead p).countP Outbound.isClose + others.countP Outbound.isClose := by
    rw [hp.countP_eq, List.countP_append]
  have hone := hs.one
  refine ⟨?_, fun c' hc' => ?_, fun text => ?_, ?_, fun c' hc' hcl => ?_⟩
  · rw [ht.queued, ht.offered]
    exact hs.front.trans (List.prefix_append _ _)
  · obtain ⟨c, hc, hout⟩ := ht.moves.outbound hc'
    rw [ht.queued, ht.offered, hout, ← List.append_assoc, hs.waiting c hc]
  · have hacc := ht.moves.accepted text
    have hsame := ht.count (.send text, .done true)
    rw [ht.queued, List.count_append, hs.counted]
    omega
  · rcases ht.moves.closes with ⟨hle, -⟩ | ⟨x, -, hx, hcl, -, -, hle⟩
    · omega
    · have := hs.unmarked x hx hcl
      omega
  · rcases ht.moves.closes with ⟨hle, hback⟩ | ⟨-, x', -, -, hx', hcl', -⟩
    · obtain ⟨c, hc, hsame⟩ := hback c' hc'
      have := hs.unmarked c hc (hsame ▸ hcl)
      omega
    · rw [hc'] at hx'
      cases hx'
      rw [hcl] at hcl'
      cases hcl'

theorem lawful_of_leads {s0 : Outbox} (hf : s0.Fresh) (hl : s0.Leads s) : s.Lawful := by
  induction hl with
  | refl => exact lawful_fresh hf
  | tail _ hs ih =>
    obtain ⟨a, hs⟩ := hs
    rcases step_cases hs with ⟨i, w, p, p', ht⟩ | hr
    · exact ih.turn ht
    · exact ih.rest hr

/-! ## Behind the mark of closing -/

theorem queued_grows (hl : s.Leads s') : s.queued <+: s'.queued := by
  induction hl with
  | refl => exact List.prefix_rfl
  | tail _ hs ih =>
    obtain ⟨a, hs⟩ := hs
    rcases step_cases hs with ⟨i, w, p, p', ht⟩ | hr
    · rw [ht.queued]
      exact ih.trans (List.prefix_append _ _)
    · rw [hr.queued]
      exact ih

/-- A send is accepted, or it will be unless its connection goes. -/
def Passed (s : Outbox) (i : Nat) (text : String) : Prop :=
  s.callers[i]? = some (.send text, .allowed) ∨ s.callers[i]? = some (.send text, .done true)

/-- What has come about since a connection was marked: only those that had looked before join the queue. -/
structure Since (s s' : Outbox) : Prop where
  marked : ∀ c, s'.connection? = some c → c.closing = true
  late : ∃ late, s'.queued = s.queued ++ late ∧ (late ++ s'.pending).Subperm s.pending
  passed : ∀ i text, s'.Passed i text → s.Passed i text

theorem Since.rest {u : Outbox} (h : u.Since s) (hr : s.Rest s') : u.Since s' := by
  refine ⟨fun c' hc' => ?_, ?_, fun i text hp => h.passed i text ?_⟩
  · obtain ⟨c, hc, hsame⟩ := hr.closing c' hc'
    rw [hsame]
    exact h.marked c hc
  · obtain ⟨late, hq, hsub⟩ := h.late
    exact ⟨late, by rw [hr.queued, hq], by rw [hr.pending]; exact hsub⟩
  · rcases hr.callers with hc | ⟨w, hc⟩
    · unfold Passed at hp ⊢
      rw [hc] at hp
      exact hp
    · -- a caller that has just come has not looked yet
      have hold {q : Wish.Phase} (hq : q ≠ .start) (hi : s'.callers[i]? = some (.send text, q)) :
          s.callers[i]? = some (.send text, q) := by
        rw [hc, List.getElem?_append] at hi
        split at hi
        · exact hi
        · rw [List.getElem?_singleton] at hi
          split at hi <;> cases hi
          exact absurd rfl hq
      exact hp.imp (hold nofun) (hold nofun)

theorem Since.turn {u : Outbox} {i : Nat} {w : Wish} {p p' : Wish.Phase} (h : u.Since s) (ht : s.Turn s' i w p p') :
    u.Since s' := by
  obtain ⟨hmark, hsub, hpass⟩ := ht.moves.marked h.marked
  refine ⟨hmark, ?_, fun k text hp => h.passed k text ?_⟩
  · obtain ⟨late, hq, hlate⟩ := h.late
    obtain ⟨others, hp, hp'⟩ := ht.pending
    refine ⟨late ++ w.joins p p', by rw [ht.queued, hq, List.append_assoc], ?_⟩
    have hmore : (w.joins p p' ++ s'.pending).Subperm s.pending := by
      refine ((hp'.append_left _).trans ?_).subperm.trans (hsub.subperm.append (List.Subperm.refl others) |>.trans hp.symm.subperm)
      rw [List.append_assoc]
    rw [List.append_assoc]
    exact ((List.Subperm.refl late).append hmore).trans hlate
  · by_cases hk : k = i
    · subst hk
      have hnow : s'.callers[k]? = some (w, p') := by
        rw [ht.callers, List.getElem?_set_self (List.getElem?_eq_some_iff.1 ht.was).1]
      unfold Passed at hp ⊢
      rw [hnow] at hp
      rw [ht.was]
      simp only [Option.some.injEq, Prod.mk.injEq] at hp ⊢
      rcases hp with ⟨rfl, rfl⟩ | ⟨rfl, rfl⟩
      · exact .inl ⟨rfl, (hpass text rfl (.inl rfl)).elim id id⟩
      · exact (hpass text rfl (.inr rfl)).imp (⟨rfl, ·⟩) (⟨rfl, ·⟩)
    · unfold Passed at hp ⊢
      rw [ht.callers, List.getElem?_set_ne (Ne.symm hk)] at hp
      exact hp

theorem since_of_leads (hm : ∀ c, s.connection? = some c → c.closing = true) (hl : s.Leads s') : s.Since s' := by
  induction hl with
  | refl => exact ⟨hm, ⟨[], (List.append_nil _).symm, List.Subperm.refl _⟩, fun _ _ => id⟩
  | tail _ hs ih =>
    obtain ⟨a, hs⟩ := hs
    rcases step_cases hs with ⟨i, w, p, p', ht⟩ | hr
    · exact ih.turn ht
    · exact ih.rest hr

/-! ## The theorem -/

/-- What stands before the one close of a queue has been offered when the close has. -/
theorem offered_before_close {before after : List Outbound} {code : UInt16} {reason : String} (hs : s.Lawful)
    (hq : s.queued = before ++ .close code reason :: after) (hm : Outbound.close code reason ∈ s.offered) :
    before ++ [.close code reason] <+: s.offered := by
  have hone : (s.queued.countP Outbound.isClose) ≤ 1 := Nat.le_trans (Nat.le_add_right _ _) hs.one
  have hfront : before ++ [.close code reason] <+: s.queued := ⟨after, by rw [hq]; simp⟩
  rcases List.prefix_or_prefix_of_prefix hfront hs.front with h | h
  · exact h
  · -- were less offered, the close would stand among what comes before it
    rcases List.prefix_concat_iff.1 h with h | h
    · exact h ▸ List.prefix_rfl
    · have hpos : 0 < before.countP Outbound.isClose := List.countP_pos_iff.2 ⟨_, h.subset hm, rfl⟩
      rw [hq, List.countP_append, List.countP_cons_of_pos rfl] at hone
      omega

/-- However a handle is used, its queue gets one close at most, and a text stands before the close if it
was queued before the connection was marked as closing; behind the mark only callers that had already
looked at it join the queue, and no send that looks later is accepted. Every text of a send that was
accepted is queued, once for each. What the other side is offered is the front of the queue, and all but
what still waits while the connection is there; so what stands before the close is offered before it. -/
theorem close_ends_queue {s0 : Outbox} (hf : s0.Fresh) (hl : s0.Leads s) :
    s.queued.countP Outbound.isClose ≤ 1 ∧
    (∀ text, s.queued.count (.text text) = s.callers.count (.send text, .done true)) ∧
    s.offered <+: s.queued ∧
    (∀ before code reason after, s.queued = before ++ .close code reason :: after → .close code reason ∈ s.offered →
      before ++ [.close code reason] <+: s.offered) ∧
    ∀ c, s.connection? = some c →
      s.queued = s.offered ++ c.outbound ∧
      (c.closing = false → ∀ o ∈ s.queued, o.isClose = false) ∧
      ∀ s', s.Leads s' → ∃ late, s'.queued = s.queued ++ late ∧
        (c.closing = true → late.Subperm s.pending ∧
          ∀ i text, s'.callers[i]? = some (.send text, .done true) → s.Passed i text) := by
  have hs := lawful_of_leads hf hl
  refine ⟨Nat.le_trans (Nat.le_add_right _ _) hs.one, hs.counted, hs.front,
    fun before code reason after hq hm => offered_before_close hs hq hm, fun c hc => ⟨hs.waiting c hc, fun hcl o ho => ?_,
      fun s' hl' => ?_⟩⟩
  · have hnone := hs.unmarked c hc hcl
    rw [Nat.add_eq_zero_iff, List.countP_eq_zero] at hnone
    exact Bool.eq_false_iff.2 (hnone.1 o ho)
  · cases hcl : c.closing with
    | false =>
      obtain ⟨late, hq⟩ := queued_grows hl'
      exact ⟨late, hq.symm, nofun⟩
    | true =>
      have hsince := since_of_leads (fun c' hc' => by rw [hc] at hc'; cases hc'; exact hcl) hl'
      obtain ⟨late, hq, hsub⟩ := hsince.late
      refine ⟨late, hq, fun _ => ⟨?_, fun i text hi => hsince.passed i text (.inr hi)⟩⟩
      exact (List.sublist_append_left late _).subperm.trans hsub

end

/-! ## Runs -/

/-- The handle 1, just given out. -/
def opened : Outbox where
  stream := { handle := 1, channel := "c" }
  connections := [(1, {})]

theorem fresh_opened : opened.Fresh := ⟨rfl, rfl, rfl, rfl⟩

/-- A text is queued, and another caller has looked at the mark when the connection is closed. -/
def overtaken : List Act :=
  [.ask (.send "early"), .ask (.send "late"), .ask (.close 1000 "bye")] ++ List.replicate 3 (.goOn 0) ++
    List.replicate 2 (.goOn 1) ++ List.replicate 3 (.goOn 2)

theorem close_ends_overtaken : ∃ s, opened.Leads s ∧ s.queued = [.text "early", .close 1000 "bye"] ∧
    s.queued.count (.text "early") = s.callers.count (.send "early", .done true) ∧
    ∀ s', s.Leads s' → ∃ late, s'.queued = s.queued ++ late ∧ late.Subperm [.text "late"] := by
  have hp : (overtaken.foldlM step opened).any (fun s => decide (s.queued = [.text "early", .close 1000 "bye"] ∧
      s.pending = [.text "late"] ∧ s.connection?.map (·.closing) = some true)) = true := by decide +kernel
  obtain ⟨s, hs, hd⟩ := (Option.any_eq_true _ _).1 hp
  obtain ⟨hq, hpend, hc⟩ := of_decide_eq_true hd
  obtain ⟨c, hc, hcl⟩ := Option.map_eq_some_iff.1 hc
  have hl := leads_of_played hs
  obtain ⟨-, hcount, -, -, hconn⟩ := close_ends_queue fresh_opened hl
  refine ⟨s, hl, hq, hcount "early", fun s' hl' => ?_⟩
  obtain ⟨late, hq', hlate⟩ := (hconn c hc).2.2 s' hl'
  exact ⟨late, hq', hpend ▸ (hlate hcl).1⟩

/-- A stream that is finished sends nothing more. -/
theorem offered_finished {s s' : Outbox} (hs : s.stream.phase = .finished) (hl : s.Leads s') :
    s'.offered = s.offered ∧ s'.stream.phase = .finished := by
  induction hl with
  | refl => exact ⟨rfl, hs⟩
  | tail _ hstep ih =>
    obtain ⟨a, hstep⟩ := hstep
    obtain ⟨ihoff, ihfin⟩ := ih
    cases a with
    | ask w => cases hstep; exact ⟨ihoff, ihfin⟩
    | goOn i =>
      obtain ⟨⟨w, p⟩, -, rfl⟩ := Option.map_eq_some_iff.1 hstep
      exact ⟨ihoff, ihfin⟩
    | elsewhere cs =>
      simp only [step] at hstep
      split at hstep
      · cases hstep; exact ⟨ihoff, ihfin⟩
      · cases hstep
    | hear i =>
      simp only [step, ihfin] at hstep
      split at hstep
      · cases hstep
      · cases hstep
        refine ⟨(List.append_nil _).trans ihoff, ?_⟩
        unfold heard Stream.step
        simp only [ihfin]

/-- A caller has looked at the mark before the connection is closed, and joins the queue behind the close. -/
def stranded : List Act :=
  [.ask (.send "late"), .ask (.close 1000 "bye")] ++ List.replicate 2 (.goOn 0) ++ List.replicate 3 (.goOn 1) ++ [.goOn 0]

/-- A text is accepted, the connection is closed, and connecting fails. -/
def failing : List Act :=
  [.ask (.send "hello"), .ask (.close 1000 "bye")] ++ List.replicate 3 (.goOn 0) ++ List.replicate 3 (.goOn 1) ++
    [.hear (.connectFailed "unreachable")]

/-- A text may be queued behind the close, and one that was accepted need never be offered. -/
theorem not_all_offered :
    (¬ ∀ s, opened.Leads s → ∀ before code reason after, s.queued = before ++ .close code reason :: after →
      after = []) ∧
    ¬ ∀ s, opened.Leads s → ∀ text, (.send text, .done true) ∈ s.callers → ∃ s', s.Leads s' ∧ .text text ∈ s'.offered := by
  constructor
  · intro hall
    have hp : (stranded.foldlM step opened).any (fun s =>
        decide (s.queued = [] ++ .close 1000 "bye" :: [.text "late"])) = true := by decide +kernel
    obtain ⟨s, hs, hq⟩ := (Option.any_eq_true _ _).1 hp
    have h := hall s (leads_of_played hs) _ _ _ _ (of_decide_eq_true hq)
    cases h
  · intro hall
    have hp : (failing.foldlM step opened).any (fun s => decide ((.send "hello", .done true) ∈ s.callers ∧
        s.offered = [] ∧ s.stream.phase = .finished)) = true := by decide +kernel
    obtain ⟨s, hs, hd⟩ := (Option.any_eq_true _ _).1 hp
    obtain ⟨hm, hoff, hfin⟩ := of_decide_eq_true hd
    obtain ⟨s', hl, hin⟩ := hall s (leads_of_played hs) "hello" hm
    rw [(offered_finished hfin hl).1, hoff] at hin
    cases hin

end Outbox

end Scripting.Net
