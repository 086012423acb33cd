/-
Dealings with executions, move by move. A start claims its execution before it asks for a thread, and ends it
itself where it gets none; the thread runs the body and then ends the execution; others ask it to stop, wait
for its end and read what it left. The lock of the outcome is taken, and the parts of the outcome and the state
are written, one after the other, and between any two moves of one there may be moves of all others. A start and
an end that nobody comes between are `Host.start` and `Host.finish`.
-/
import Scripting.Proofs.Host.Events
import Mathlib.Logic.Function.Basic
import Mathlib.Logic.Relation

namespace Scripting

/-! ## Who deals with an execution -/

/-- How far somebody has come who ends an execution. -/
inductive Closing where
  /-- About to take the lock of the outcome. -/
  | lock
  /-- About to write what the body returned. -/
  | value
  /-- About to write why it failed. -/
  | failure
  /-- About to write that the execution has finished. -/
  | state
  /-- About to wake those who wait for the end. -/
  | notify
  /-- About to let go of the lock. -/
  | unlock
  deriving DecidableEq

/-- Who ends an execution: the start that could get no thread for it, or the thread after the body. -/
inductive Closer where
  | spawn (e : SpawnError)
  | body (ending : Ending)

/-- What a closer writes. -/
def Closer.outcome : Closer → Outcome
  | .spawn e => { failure := some e.text }
  | .body ending => ending.outcome

/-- The two things that can be read of an outcome. -/
inductive Part where
  | value | failure
  deriving DecidableEq

/-- An outcome of which nothing but a part is seen. -/
def Part.of (o : Outcome) : Part → Outcome
  | .value => { value := o.value }
  | .failure => { failure := o.failure }

/-- What somebody does with an execution, and how far it is. -/
inductive Errand where
  /-- About to claim the execution for a start. -/
  | claim
  /-- Has claimed it; about to ask for a thread. -/
  | spawn
  /-- Through with a start; the answer tells whether it was this one. -/
  | started (answer : Bool)
  /-- Runs the body on the thread of the execution. -/
  | body (work : Activity Ending)
  | close (c : Closer) (stage : Closing)
  /-- Through with the end; a start answers with an error now, and a thread is no more. -/
  | closed (c : Closer)
  | stop (r : StopRequest)
  /-- About to take the lock of the outcome to wait for the end. -/
  | join
  /-- Holds the lock; about to look at the state. -/
  | joinLook
  /-- Has let go of the lock and waits to be woken. -/
  | joinParked
  /-- Has seen the end; about to let go of the lock. -/
  | joinLeave
  | joined
  /-- About to take the lock of the outcome to read a part of it. -/
  | read (part : Part)
  | readLook (part : Part)
  /-- Has seen the part, while the execution was in a state; about to let go of the lock. -/
  | readLeave (part : Part) (seen : Outcome) (state : ExecutionState)
  | hasRead (part : Part) (seen : Outcome) (state : ExecutionState)

/-- Somebody who deals with an execution. -/
structure Party where
  execution : ExecutionId
  errand : Errand

/-- A host with the locks of the outcomes, by who holds them, and all who deal with its executions. -/
structure Dealings where
  host : Host
  lock : ExecutionId → Option Nat := fun _ => none
  parties : List Party := []

/-! ## Moves -/

/-- What a move comes to. -/
structure Move where
  /-- The host, but for the execution that is dealt with. -/
  host : Host
  execution : Execution
  /-- Who holds the lock of the outcome. -/
  lock : Option Nat
  errand : Errand
  /-- What a thread is about that comes into being. -/
  comes : Option Errand := none
  /-- Whether those who wait for the end are woken. -/
  notifies : Bool := false

/-- One move of somebody who has a number and deals with an execution; none while they have to wait for the lock,
or for what the execution waits for, and where they are through. -/
def Errand.move (h : Host) (self : Nat) (id : ExecutionId) (x : Execution) (l : Option Nat) : Errand → Option Move
  | .claim =>
    match x.start? with
    | some running => some { host := h, execution := running, lock := l, errand := .spawn }
    | none => some { host := h, execution := x, lock := l, errand := .started false }
  | .spawn =>
    match h.environment.spawnFailure x.threadName with
    | some text => some { host := h, execution := x, lock := l, errand := .close (.spawn ⟨x.threadName, text⟩) .lock }
    | none => some { host := h, execution := x, lock := l, errand := .started true, comes := some (.body (.going x.body)) }
  | .body (.done ending) =>
    let events := if ending.outcome.failure.isSome then
        [Log.error "Script execution failed" [("thread_name", x.threadName)]] else []
    some { host := h.logged events, execution := x, lock := l, errand := .close (.body ending) .lock }
  | .body work => (work.step { self, execution := some id } h).map fun (h, work) =>
      { host := h, execution := x, lock := l, errand := .body work }
  | .close c .lock =>
    if l.isNone then some { host := h, execution := x, lock := some self, errand := .close c .value } else none
  | .close c .value => some { host := h, lock := l, errand := .close c .failure
                              execution := { x with outcome := { x.outcome with value := c.outcome.value } } }
  | .close c .failure => some { host := h, lock := l, errand := .close c .state
                                execution := { x with outcome := { x.outcome with failure := c.outcome.failure } } }
  | .close c .state =>
    some { host := h, execution := { x with state := .finished }, lock := l, errand := .close c .notify }
  | .close c .notify => some { host := h, execution := x, lock := l, errand := .close c .unlock, notifies := true }
  | .close c .unlock => some { host := h, execution := x, lock := none, errand := .closed c }
  | .stop r => (r.step h).map fun (h, r) => { host := h, execution := x, lock := l, errand := .stop r }
  | .join => if l.isNone then some { host := h, execution := x, lock := some self, errand := .joinLook } else none
  | .joinLook =>
    if x.state = .finished then some { host := h, execution := x, lock := l, errand := .joinLeave }
    else some { host := h, execution := x, lock := none, errand := .joinParked }
  | .joinLeave => some { host := h, execution := x, lock := none, errand := .joined }
  | .read part =>
    if l.isNone then some { host := h, execution := x, lock := some self, errand := .readLook part } else none
  | .readLook part => some { host := h, execution := x, lock := l, errand := .readLeave part (part.of x.outcome) x.state }
  | .readLeave part seen state => some { host := h, execution := x, lock := none, errand := .hasRead part seen state }
  | .started _ | .closed _ | .joinParked | .joined | .hasRead .. => none

namespace Dealings

/-- Who waits for the end of an execution is woken, and about to take the lock again. -/
def woken (id : ExecutionId) (p : Party) : Party :=
  match p.errand with
  | .joinParked => if p.execution = id then { p with errand := .join } else p
  | _ => p

/-- The dealings after a move of a party. -/
def after (d : Dealings) (i : Nat) (p : Party) (m : Move) : Dealings where
  host := m.host.setExecution p.execution m.execution
  lock := Function.update d.lock p.execution m.lock
  parties := (if m.notifies then d.parties.map (woken p.execution) else d.parties).set i { p with errand := m.errand } ++
    m.comes.toList.map (⟨p.execution, ·⟩)

/-- What callers ask for. -/
inductive Request where
  | start | stop | join
  | read (part : Part)

def Request.errand (x : Execution) : Request → Errand
  | .start => .claim
  | .stop => .stop { token := x.token }
  | .join => .join
  | .read part => .read part

inductive Act where
  /-- An execution comes into being. -/
  | register (o : Order) (unit : ExecutableUnit)
  /-- A caller comes to an execution. -/
  | come (id : ExecutionId) (r : Request)
  /-- A party makes a move. -/
  | move (i : Nat)
  /-- A party wakes that nobody has woken. -/
  | rouse (i : Nat)
  /-- A thread that serves a stream makes a move. -/
  | stream (i : ThreadId)
  /-- A message is posted from outside. -/
  | post (channel event : String) (params : Option String)
  | elapse (millis : Nat)
  /-- Anything around the host changes, such as whether threads can be had. -/
  | surroundings (e : Environment)

/-- The dealings after an act; none where it cannot happen now. -/
def step (d : Dealings) : Act → Option Dealings
  | .register o unit => some { d with host := (d.host.registerExecution o unit).2 }
  | .come id r => (d.host.execution? id).map fun x => { d with parties := d.parties ++ [⟨id, r.errand x⟩] }
  | .move i => do
    let p ← d.parties[i]?
    let x ← d.host.execution? p.execution
    let m ← p.errand.move d.host i p.execution x (d.lock p.execution)
    return d.after i p m
  | .rouse i =>
    match d.parties[i]? with
    | some ⟨id, .joinParked⟩ => some { d with parties := d.parties.set i ⟨id, .join⟩ }
    | _ => none
  | .stream i =>
    if (d.host.threads[i]?).any (·.isNetwork) then (d.host.step i).map fun host => { d with host } else none
  | .post channel event params =>
    if d.host.isFree channel then some { d with host := d.host.post channel event params } else none
  | .elapse millis => some { d with host := { d.host with clock := d.host.clock + millis } }
  | .surroundings environment => some { d with host := { d.host with environment } }

/-- Acts lead from one state of the dealings to another. -/
def Leads : Dealings → Dealings → Prop := Relation.ReflTransGen fun d d' => ∃ a, d.step a = some d'

/-- Nobody has asked for anything yet. -/
structure Fresh (d : Dealings) : Prop where
  host : d.host.Fresh
  lock : ∀ id, d.lock id = none
  parties : d.parties = []

end Dealings

/-! ## What a move can do -/

/-- The moves from an errand, for somebody with a number who finds the execution and its lock as they are. -/
inductive Errand.Moves (h : Host) (self : Nat) (id : ExecutionId) (x : Execution) (l : Option Nat) : Errand → Move → Prop
  | claim : x.state = .created →
      Moves h self id x l .claim { host := h, execution := { x with state := .running }, lock := l, errand := .spawn }
  | late : x.state ≠ .created →
      Moves h self id x l .claim { host := h, execution := x, lock := l, errand := .started false }
  | spawn : h.environment.spawnFailure x.threadName = none → Moves h self id x l .spawn
      { host := h, execution := x, lock := l, errand := .started true, comes := some (.body (.going x.body)) }
  | unspawned {text : String} : h.environment.spawnFailure x.threadName = some text → Moves h self id x l .spawn
      { host := h, execution := x, lock := l, errand := .close (.spawn ⟨x.threadName, text⟩) .lock }
  | run {work work' : Activity Ending} {k : Host} : work.step { self, execution := some id } h = some (k, work') →
      Moves h self id x l (.body work) { host := k, execution := x, lock := l, errand := .body work' }
  | return {ending : Ending} {events : List Log.Event} : Moves h self id x l (.body (.done ending))
      { host := h.logged events, execution := x, lock := l, errand := .close (.body ending) .lock }
  | closeLock {c : Closer} : l = none → Moves h self id x l (.close c .lock)
      { host := h, execution := x, lock := some self, errand := .close c .value }
  | closeValue {c : Closer} : Moves h self id x l (.close c .value)
      { host := h, execution := { x with outcome := { x.outcome with value := c.outcome.value } }, lock := l
        errand := .close c .failure }
  | closeFailure {c : Closer} : Moves h self id x l (.close c .failure)
      { host := h, execution := { x with outcome := { x.outcome with failure := c.outcome.failure } }, lock := l
        errand := .close c .state }
  | closeState {c : Closer} : Moves h self id x l (.close c .state)
      { host := h, execution := { x with state := .finished }, lock := l, errand := .close c .notify }
  | closeNotify {c : Closer} : Moves h self id x l (.close c .notify)
      { host := h, execution := x, lock := l, errand := .close c .unlock, notifies := true }
  | closeUnlock {c : Closer} : Moves h self id x l (.close c .unlock)
      { host := h, execution := x, lock := none, errand := .closed c }
  | stop {r r' : StopRequest} {k : Host} : r.step h = some (k, r') →
      Moves h self id x l (.stop r) { host := k, execution := x, lock := l, errand := .stop r' }
  | joinLock : l = none → Moves h self id x l .join { host := h, execution := x, lock := some self, errand := .joinLook }
  | joinSeen : x.state = .finished →
      Moves h self id x l .joinLook { host := h, execution := x, lock := l, errand := .joinLeave }
  | joinPark : x.state ≠ .finished →
      Moves h self id x l .joinLook { host := h, execution := x, lock := none, errand := .joinParked }
  | joinUnlock : Moves h self id x l .joinLeave { host := h, execution := x, lock := none, errand := .joined }
  | readLock {part : Part} : l = none →
      Moves h self id x l (.read part) { host := h, execution := x, lock := some self, errand := .readLook part }
  | readLook {part : Part} : Moves h self id x l (.readLook part)
      { host := h, execution := x, lock := l, errand := .readLeave part (part.of x.outcome) x.state }
  | readUnlock {part : Part} {seen : Outcome} {state : ExecutionState} : Moves h self id x l (.readLeave part seen state)
      { host := h, execution := x, lock := none, errand := .hasRead part seen state }

theorem Execution.start?_of_created {x : Execution} (h : x.state = .created) :
    x.start? = some { x with state := .running } := by
  unfold start?
  rw [h]

theorem Execution.start?_of_ne {x : Execution} (h : x.state ≠ .created) : x.start? = none := by
  unfold start?
  split
  · rename_i hc
    exact absurd hc h
  · rfl

theorem Errand.moves_of_move {h : Host} {self : Nat} {id : ExecutionId} {x : Execution} {l : Option Nat} {e : Errand}
    {m : Move} (hm : e.move h self id x l = some m) : Moves h self id x l e m := by
  unfold move at hm
  split at hm
  · by_cases hc : x.state = .created
    · rw [Execution.start?_of_created hc] at hm
      cases hm
      exact .claim hc
    · rw [Execution.start?_of_ne hc] at hm
      cases hm
      exact .late hc
  · split at hm <;> rename_i hs <;> cases hm
    · exact .unspawned hs
    · exact .spawn hs
  · cases hm
    exact .return
  · obtain ⟨⟨k, work⟩, hw, hm⟩ := Option.map_eq_some_iff.1 hm
    cases hm
    exact .run hw
  · split at hm <;> cases hm
    rename_i hl
    exact .closeLock (Option.isNone_iff_eq_none.1 hl)
  · cases hm
    exact .closeValue
  · cases hm
    exact .closeFailure
  · cases hm
    exact .closeState
  · cases hm
    exact .closeNotify
  · cases hm
    exact .closeUnlock
  · obtain ⟨⟨k, r⟩, hr, hm⟩ := Option.map_eq_some_iff.1 hm
    cases hm
    exact .stop hr
  · split at hm <;> cases hm
    rename_i hl
    exact .joinLock (Option.isNone_iff_eq_none.1 hl)
  · split at hm <;> rename_i hs <;> cases hm
    · exact .joinSeen hs
    · exact .joinPark hs
  · cases hm
    exact .joinUnlock
  · split at hm <;> cases hm
    rename_i hl
    exact .readLock (Option.isNone_iff_eq_none.1 hl)
  · cases hm
    exact .readLook
  · cases hm
    exact .readUnlock
  all_goals cases hm

/-! ## Other tokens -/

section

variable {h h' : Host} {u : TokenId}

theorem Host.report_tokens (h : Host) (trace : List Net.Trace) : (h.report trace).tokens = h.tokens := by
  unfold report
  induction trace generalizing h with
  | nil => rfl
  | cons t trace ih =>
    rw [List.foldl_cons, ih]
    cases t with
    | event e => rfl
    | line s => cases h.traffic <;> rfl

theorem Host.openStream_tokens (h : Host) (c : Net.StreamCall) : (h.openStream c).2.tokens = h.tokens := by
  unfold openStream
  simp only
  split <;> rfl

/-- A request raises no flag but that of its own token. -/
theorem Host.token?_stopToken {t : TokenId} (hu : u ≠ t) : (h.stopToken t).token? u = h.token? u := by
  unfold stopToken
  split
  · rfl
  · rename_i s hs
    have hset := StopRequest.token?_setToken (s := s.request.1) hs u
    rw [if_neg hu] at hset
    exact hset

theorem Host.token?_serve {seat : Seat} {d : Demand} {r : d.Answer} (hs : h.serve seat d = some (r, h'))
    (hd : d ≠ .stop u) : h'.token? u = h.token? u := by
  cases d <;> simp only [serve, Option.some.injEq, Prod.mk.injEq, reduceCtorEq] at hs
  case post | poll =>
    split at hs <;> cases hs
    rfl
  case request c =>
    obtain rfl : h' = (h.request (h.seatToken seat) c).2 := (congrArg Prod.snd hs).symm
    unfold token? request
    simp only
    rw [report_tokens]
    rfl
  case openStream c =>
    obtain rfl : h' = (h.openStream c).2 := (congrArg Prod.snd hs).symm
    unfold token?
    rw [openStream_tokens]
  case send | close =>
    rw [show h' = _ from (congrArg Prod.snd hs).symm]
    rfl
  case stop t =>
    obtain ⟨-, rfl⟩ := hs
    exact token?_stopToken fun h => hd (h ▸ rfl)
  all_goals
    obtain ⟨-, rfl⟩ := hs
    rfl

/-- A routine on its way leaves all tokens but its own as they are, and what it asks to stop. -/
theorem Activity.token?_step {α : Type} {seat : Seat} {a a' : Activity α} (hs : a.step seat h = some (h', a'))
    (hseat : h.seatToken seat ≠ some u) (hstop : ∀ resume, a ≠ .going (.ask (.stop u) resume)) :
    h'.token? u = h.token? u := by
  unfold Activity.step at hs
  split at hs
  · cases hs
  · cases hs
    rfl
  · cases hs
    rfl
  · rename_i d resume _
    obtain ⟨⟨r, k⟩, hr, hs⟩ := Option.map_eq_some_iff.1 hs
    cases hs
    refine Host.token?_serve hr ?_
    rintro rfl
    exact hstop resume rfl
  · split at hs
    · cases hs
      rfl
    · obtain ⟨⟨k, q⟩, hr, hs⟩ := Option.map_eq_some_iff.1 hs
      cases hs
      obtain ⟨s', -, -, -, -, -, htokens⟩ := Host.stepPoll_cases hr
      rw [htokens, if_neg hseat]

/-- A stop request leaves all tokens but its own as they are. -/
theorem StopRequest.token?_step {r r' : StopRequest} (hs : r.step h = some (h', r')) (hu : u ≠ r.token) :
    h'.token? u = h.token? u := by
  obtain ⟨hm, -⟩ := moves_of_step hs
  generalize r'.phase = phase at hm
  cases hm with
  | needless | list | finish | wake => rfl
  | raise _ ht _ => rw [token?_setToken ht, if_neg hu]

end

/-! ## Starts and ends that nobody comes between -/

namespace Host

variable {h : Host} {id : ExecutionId}

theorem setExecution_self {x : Execution} (hx : h.execution? id = some x) : h.setExecution id x = h := by
  unfold execution? at hx
  obtain ⟨hlt, rfl⟩ := List.getElem?_eq_some_iff.1 hx
  unfold setExecution
  rw [List.set_getElem_self]

theorem setExecution_twice (x y : Execution) : (h.setExecution id x).setExecution id y = h.setExecution id y := by
  unfold setExecution
  simp only [List.set_set]

theorem execution?_setExecution_self (hid : (h.execution? id).isSome) (x : Execution) :
    (h.setExecution id x).execution? id = some x := by
  obtain ⟨y, hy⟩ := Option.isSome_iff_exists.1 hid
  rw [execution?_setExecution hy, if_pos rfl]

end Host

namespace Dealings

/-- Moves of a party, with none of another in between. -/
def Alone (i : Nat) : Dealings → Dealings → Prop := Relation.ReflTransGen fun d d' => d.step (.move i) = some d'

/-- A party has come to an errand all alone, and the execution and its lock are as given. -/
structure Standing (d d' : Dealings) (i : Nat) (id : ExecutionId) (x : Execution) (l : Option Nat) (e : Errand) :
    Prop where
  alone : Alone i d d'
  host : d'.host = d.host.setExecution id x
  lock : d'.lock = Function.update d.lock id l
  self : d'.parties[i]? = some ⟨id, e⟩

variable {d d' : Dealings} {i : Nat} {id : ExecutionId} {x : Execution} {e : Errand}

theorem after_self {m : Move} (hi : d.parties[i]? = some ⟨id, e⟩) :
    (d.after i ⟨id, e⟩ m).parties[i]? = some ⟨id, m.errand⟩ := by
  have hlt : i < d.parties.length := (List.getElem?_eq_some_iff.1 hi).1
  unfold after
  simp only
  rw [List.getElem?_append_left (by split <;> simpa using hlt), List.getElem?_set_self (by split <;> simpa using hlt)]

theorem step_move {m : Move} (hi : d.parties[i]? = some ⟨id, e⟩) (hx : d.host.execution? id = some x)
    (hm : e.move d.host i id x (d.lock id) = some m) : d.step (.move i) = some (d.after i ⟨id, e⟩ m) := by
  simp [step, hi, hx, hm]

theorem standing_here (hi : d.parties[i]? = some ⟨id, e⟩) (hx : d.host.execution? id = some x) :
    Standing d d i id x (d.lock id) e :=
  ⟨.refl, (Host.setExecution_self hx).symm, (Function.update_eq_self _ _).symm, hi⟩

theorem Standing.execution? {l : Option Nat} (hs : Standing d d' i id x l e) (hid : (d.host.execution? id).isSome) :
    d'.host.execution? id = some x := by
  rw [hs.host]
  exact Host.execution?_setExecution_self hid x

theorem Standing.environment {l : Option Nat} (hs : Standing d d' i id x l e) :
    d'.host.environment = d.host.environment := by
  rw [hs.host]
  rfl

theorem Standing.same_lock (hs : Standing d d' i id x (d.lock id) e) : d'.lock = d.lock :=
  hs.lock.trans (Function.update_eq_self _ _)

theorem Standing.next {l : Option Nat} {m : Move} (hs : Standing d d' i id x l e) (hid : (d.host.execution? id).isSome)
    (hm : e.move d'.host i id x l = some m) (hh : m.host = d'.host) :
    ∃ d'', Standing d d'' i id m.execution m.lock m.errand := by
  have hx := hs.execution? hid
  have hl : d'.lock id = l := by
    rw [hs.lock, Function.update_self]
  rw [← hl] at hm
  refine ⟨_, hs.alone.tail (step_move hs.self hx hm), ?_, ?_, after_self hs.self⟩
  · show m.host.setExecution id m.execution = _
    rw [hh, hs.host, Host.setExecution_twice]
  · show Function.update d'.lock id m.lock = _
    rw [hs.lock, Function.update_idem]

/-- An end that nobody comes between writes the outcome and the state and lets the lock go again. -/
theorem close_alone {c : Closer} (hi : d.parties[i]? = some ⟨id, .close c .lock⟩) (hx : d.host.execution? id = some x)
    (hl : d.lock id = none) : ∃ d', Standing d d' i id (x.finish c.outcome) none (.closed c) := by
  have hid : (d.host.execution? id).isSome := by
    rw [hx]
    rfl
  have hs := standing_here hi hx
  rw [hl] at hs
  obtain ⟨_, hs⟩ := hs.next hid rfl rfl
  obtain ⟨_, hs⟩ := hs.next hid rfl rfl
  obtain ⟨_, hs⟩ := hs.next hid rfl rfl
  obtain ⟨_, hs⟩ := hs.next hid rfl rfl
  obtain ⟨_, hs⟩ := hs.next hid rfl rfl
  exact hs.next hid rfl rfl

/-- A thread whose body has ended, and between whose moves nobody comes, finishes its execution. -/
theorem finish_alone {ending : Ending} (hi : d.parties[i]? = some ⟨id, .body (.done ending)⟩)
    (hx : d.host.execution? id = some x) (hl : d.lock id = none) :
    ∃ d', Alone i d d' ∧ d'.host = d.host.finish id ending ∧ d'.lock = d.lock ∧
      d'.parties[i]? = some ⟨id, .closed (.body ending)⟩ := by
  let events := if ending.outcome.failure.isSome then
      [Log.error "Script execution failed" [("thread_name", x.threadName)]] else []
  let m : Move := { host := d.host.logged events, execution := x, lock := d.lock id, errand := .close (.body ending) .lock }
  have hstep : d.step (.move i) = some (d.after i _ m) := step_move hi hx rfl
  have hhost : (d.after i ⟨id, .body (.done ending)⟩ m).host = d.host.logged events := Host.setExecution_self hx
  have hlock : (d.after i ⟨id, .body (.done ending)⟩ m).lock = d.lock := Function.update_eq_self _ _
  obtain ⟨d', hs⟩ := close_alone (after_self hi) (by rw [hhost]; exact hx) (by rw [hlock]; exact hl)
  refine ⟨d', .head hstep hs.alone, ?_, ?_, hs.self⟩
  · rw [hs.host, hhost, Host.finish, hx]
    rfl
  · rw [hs.lock, hlock, ← hl, Function.update_eq_self]

/-- A start between whose moves nobody comes starts the execution and has the answer of the start. -/
theorem start_alone (hi : d.parties[i]? = some ⟨id, .claim⟩) (hx : d.host.execution? id = some x) (hl : d.lock id = none) :
    ∃ d', Alone i d d' ∧ d'.host = { (d.host.start id).2 with threads := d.host.threads } ∧ d'.lock = d.lock ∧
      match d.host.start id with
      | (.ok false, _) => d'.parties[i]? = some ⟨id, .started false⟩
      | (.ok true, h) => d'.parties[i]? = some ⟨id, .started true⟩ ∧
        ∃ work, h.threads = d.host.threads ++ [.body id work] ∧ d'.parties.getLast? = some ⟨id, .body work⟩
      | (.error e, _) => d'.parties[i]? = some ⟨id, .closed (.spawn e)⟩ := by
  have hid : (d.host.execution? id).isSome := by
    rw [hx]
    rfl
  have hs := standing_here hi hx
  rcases Host.start_cases d.host id with ⟨hne, hstart⟩ | ⟨y, hy, hc, hstart⟩
  · obtain ⟨d', hs⟩ := hs.next (m := { host := d.host, execution := x, lock := d.lock id, errand := .started false })
      hid (by rw [Errand.move, Execution.start?_of_ne (hne x hx)]) rfl
    rw [hstart]
    exact ⟨d', hs.alone, hs.host.trans (Host.setExecution_self hx), hs.same_lock, hs.self⟩
  · obtain rfl : x = y := Option.some.inj (hx.symm.trans hy)
    let running := { x with state := .running }
    obtain ⟨d₁, hs⟩ := hs.next (m := { host := d.host, execution := running, lock := d.lock id, errand := .spawn })
      hid (by rw [Errand.move, Execution.start?_of_created hc]) rfl
    have hx₁ := hs.execution? hid
    have henv := hs.environment
    have hlock := hs.same_lock
    rcases hstart with ⟨text, hfail, hstart⟩ | ⟨hfail, hstart⟩
    · -- no thread can be had, and the start ends the execution
      have hmove : Errand.spawn.move d₁.host i id running (d.lock id) = some
          { host := d₁.host, execution := running, lock := d.lock id
            errand := .close (.spawn ⟨x.threadName, text⟩) .lock } := by
        rw [Errand.move, henv]
        simp only [running, hfail]
      obtain ⟨d₂, hs⟩ := hs.next hid hmove rfl
      have hlock₂ := hs.same_lock
      obtain ⟨d', hs'⟩ := close_alone hs.self (hs.execution? hid) (by rw [hlock₂]; exact hl)
      rw [hstart]
      refine ⟨d', hs.alone.trans hs'.alone, ?_, ?_, hs'.self⟩
      · rw [hs'.host, hs.host, Host.setExecution_twice]
        rfl
      · rw [hs'.lock, hlock₂, ← hl, Function.update_eq_self]
    · have hmove : Errand.spawn.move d₁.host i id running (d₁.lock id) = some
          { host := d₁.host, execution := running, lock := d₁.lock id, errand := .started true
            comes := some (.body (.going running.body)) } := by
        rw [Errand.move, henv]
        simp only [running, hfail]
      rw [hstart]
      refine ⟨_, hs.alone.tail (step_move hs.self hx₁ hmove), ?_, ?_, after_self hs.self, _, rfl, ?_⟩
      · show d₁.host.setExecution id running = _
        rw [hs.host, Host.setExecution_twice]
        rfl
      · exact (Function.update_eq_self _ _).trans hlock
      · exact List.getLast?_concat

end Dealings

end Scripting
