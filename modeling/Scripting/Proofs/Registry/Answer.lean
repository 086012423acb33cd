/-
One order for an execution that nobody starts, from its first look to its answer. If an execution of the
name runs, the first look finds it, and nothing is asked of the surroundings or changed. Otherwise the
sources are looked for once and compiled at most once, and the answer is a new execution that is registered
under the name, or an error that leaves the registry and the executions as they were. Where the order stands
in between, and what it has asked and changed by then, is said phase by phase (`Stage`).

Other threads go on meanwhile, so an execution that was started before may come to its end; that is all
that can happen to one, and where nothing else happens not even that.
-/
import Scripting.Proofs.Host.Bodies
import Scripting.Proofs.Registry.StopAll

namespace Scripting

/-! ## What is asked of the surroundings -/

/-- What a fulfilment asks its surroundings for. -/
inductive Inquiry where
  /-- The sources of an id. -/
  | sources (sourceId : String)
  /-- A unit of sources. -/
  | unit (token : TokenId) (sources : List Source)

/-- The sources of an id were asked for once, and a unit at most once. -/
def AskedOnce (sourceId : String) (asked : List Inquiry) : Prop :=
  asked = [.sources sourceId] ∨ ∃ token sources, asked = [.sources sourceId, .unit token sources]

namespace Fulfilment

/-- What the next move asks for; only in one phase are the resolver and the compiler used. -/
def inquiries (h : Host) (f : Fulfilment) : List Inquiry :=
  match f.phase with
  | .resolve token =>
    match h.environment.resolve f.order.sourceId with
    | .ok (s :: rest) => [.sources f.order.sourceId, .unit token (s :: rest)]
    | _ => [.sources f.order.sourceId]
  | _ => []

variable {h k : Host} {f : Fulfilment} {p : Phase}

theorem askedOnce_inquiries {token : TokenId} (hp : f.phase = .resolve token) :
    AskedOnce f.order.sourceId (f.inquiries h) := by
  unfold inquiries
  rw [hp]
  simp only
  split
  · exact .inr ⟨_, _, rfl⟩
  · exact .inl rfl

theorem inquiries_of_ne (hp : ∀ token, f.phase ≠ .resolve token) : f.inquiries h = [] := by
  unfold inquiries
  split
  · rename_i token hr
    exact absurd hr (hp token)
  · rfl

/-- The table of builders while nobody else's order is being fulfilled. -/
structure Alone (h : Host) (f : Fulfilment) : Prop where
  held : f.phase.holdsLock → h.registry.builders = [(f.name, f.self)]
  free : ¬ f.phase.holdsLock → h.registry.builders = []

theorem Alone.moves (ha : Alone h f) (hm : f.Moves h k p) : Alone k { f with phase := p } := by
  rcases hm.builders with ⟨hk, hiff⟩ | ⟨hp, -, hl, hk⟩ | ⟨hl, hk, hn⟩
  · exact ⟨fun h => hk.trans (ha.held (hiff.1 h)), fun h => hk.trans (ha.free fun hf => h (hiff.2 hf))⟩
  · have hfree : h.registry.builders = [] := ha.free (by rw [hp]; exact id)
    rw [hfree] at hk
    exact ⟨fun _ => hk, fun h => absurd hl h⟩
  · rw [ha.held hl] at hk
    exact ⟨fun h => absurd h hn, fun _ => by rw [hk]; simp [Assoc.erase]⟩

end Fulfilment

namespace Host

/-! ## Between operations -/

section

variable {h0 h k : Host} {late : List ExecutionId} {f g : Fulfilment}

theorem alone_course (ih : Orderly late h) (im : Making h f) (hm : h.Manned) (ha : f.Alone h)
    (hc : Course Event.Unasked (fun h f => f.step h) h f k g) : k.Manned ∧ g.Alone k := by
  induction hc with
  | start => exact ⟨hm, ha⟩
  | move _ hs iha =>
    obtain ⟨hmv, hg⟩ := Fulfilment.moves_of_step hs
    rw [hg]
    exact ⟨iha.1.moves hmv, iha.2.moves hmv⟩
  | event hc hu hs iha =>
    have hr := ((ih.fulfilling im hc).1.aside_of_unasked hu hs).registry
    exact ⟨iha.1.after hs, ⟨by rw [hr]; exact iha.2.held, by rw [hr]; exact iha.2.free⟩⟩

theorem manned_stopping {s s' : StopAll} (hm : h.Manned) (hc : Course Event.Unasked (fun h s => s.step h) h s k s') :
    k.Manned := by
  induction hc with
  | start => exact hm
  | move _ hs ih => exact ih.quiet (StopAll.quiet_step hs)
  | event _ _ hs ih => exact ih.after hs

theorem alone_lookUp (hb : h.registry.builders = []) (hp : f.phase = .lookUp) : f.Alone h :=
  ⟨fun hl => (by rw [hp] at hl; exact hl.elim), fun _ => hb⟩

/-- Between operations nobody builds, and bodies run only for executions that were started. -/
theorem idle_of_operated (hf : h0.Fresh) (ho : h0.Operated late h) : h.Manned ∧ h.registry.builders = [] := by
  induction ho with
  | start => exact ⟨manned_fresh hf, by rw [hf.registry]⟩
  | @event late h k ev ho hno hs ih =>
    refine ⟨ih.1.after hs, ?_⟩
    rcases after?_cases hs with ⟨ha, -⟩ | ⟨id, -, rfl⟩ | ⟨o, starts, rfl, -⟩ | ⟨i, f, -, -, -, hi, -⟩
    · rw [ha.registry]; exact ih.2
    · rw [start_registry]; exact ih.2
    · exact absurd rfl (hno o starts)
    · exact absurd hi ((orderly_of_operated hf ho).1.alone i f)
  | order ho hp hc hd ih =>
    obtain ⟨hord, hcomp⟩ := orderly_of_operated hf ho
    obtain ⟨hm, ha⟩ := alone_course hord (making_lookUp hcomp hp) ih.1 (alone_lookUp ih.2 hp) hc
    exact ⟨hm, ha.free (by rw [hd]; exact id)⟩
  | stopAll ho hc ih =>
    exact ⟨manned_stopping ih.1 hc, by rw [((orderly_of_operated hf ho).1.stopping hc).2]; exact ih.2⟩

end

/-! ## An order under way -/

/-- An order while it is being fulfilled for a caller from outside, from its first look on: what it asked its
surroundings for so far, and what else has happened. -/
inductive Pursued (h : Host) (f : Fulfilment) : List Inquiry → List Event → Host → Fulfilment → Prop
  | look {k : Host} {g : Fulfilment} : f.step h = some (k, g) → Pursued h f (f.inquiries h) [] k g
  | move {asked : List Inquiry} {meanwhile : List Event} {k k' : Host} {g g' : Fulfilment} :
      Pursued h f asked meanwhile k g → g.step k = some (k', g') → Pursued h f (asked ++ g.inquiries k) meanwhile k' g'
  | event {asked : List Inquiry} {meanwhile : List Event} {k k' : Host} {g : Fulfilment} {ev : Event} :
      Pursued h f asked meanwhile k g → (∀ r, g.phase ≠ .done r) → ev.Unasked → k.after? ev = some k' →
      Pursued h f asked (meanwhile ++ [ev]) k' g

/-- The fulfilment of an order whose execution nobody starts, in a phase. -/
def askingAt (self : ThreadId) (o : Order) (phase : Fulfilment.Phase) : Fulfilment :=
  { self, order := o, starts := false, phase }

/-- The same before its first look. -/
abbrev asking (self : ThreadId) (o : Order) : Fulfilment := askingAt self o .lookUp

/-- An order comes to an answer, after certain inquiries and certain events meanwhile. -/
def Answers (h : Host) (self : ThreadId) (o : Order) (asked : List Inquiry) (meanwhile : List Event) (k : Host)
    (r : Except OrderError ExecutionId) : Prop :=
  ∃ g, h.Pursued (asking self o) asked meanwhile k g ∧ g.phase = .done r

/-- Every execution is as it was; only if something happened meanwhile, one that was started may have come to
its end. -/
def Untouched (meanwhile : List Event) (h k : Host) : Prop :=
  ∀ id e, h.execution? id = some e → k.execution? id = some e ∨
    meanwhile ≠ [] ∧ e.state ≠ .created ∧ ∃ o, k.execution? id = some (e.finish o)

/-- Nothing has come of an order. -/
structure Unmade (h : Host) (meanwhile : List Event) (k : Host) : Prop where
  length : k.executions.length = h.executions.length
  entries : k.registry.entries = h.registry.entries
  untouched : Untouched meanwhile h k

/-- A new execution has come of an order, as the order says, only created, and registered under its name. -/
structure Made (h : Host) (o : Order) (meanwhile : List Event) (k : Host) (id : ExecutionId) : Prop where
  fresh : id = h.executions.length
  created : ∃ unit token, k.execution? id = some {
    threadName := o.threadName, sourceId := o.sourceId, functionName := o.functionName, params := o.params, unit, token }
  entries : k.registry.entries = Assoc.insert o.threadName id h.registry.entries
  untouched : Untouched meanwhile h k

/-- Where an order stands whose first look found nothing that runs. -/
def Stage (h : Host) (o : Order) (asked : List Inquiry) (meanwhile : List Event) (k : Host) :
    Fulfilment.Phase → Prop
  | .wantBuild | .lookAgain | .announce | .resolve _ => asked = [] ∧ h.Unmade meanwhile k
  | .compile .. | .retract _ | .register _ | .release (.error _) | .done (.error (.resolution _)) =>
    AskedOnce o.sourceId asked ∧ h.Unmade meanwhile k
  | .release (.ok id) | .done (.ok id) => AskedOnce o.sourceId asked ∧ h.Made o meanwhile k id
  | .lookUp | .start _ | .done (.error (.spawn _)) => False

section

variable {h k k' : Host} {o : Order} {meanwhile : List Event} {id : ExecutionId}

/-! ## What a move leaves alone -/

theorem Unmade.same (hu : h.Unmade meanwhile k) (he : k'.executions = k.executions)
    (hr : k'.registry.entries = k.registry.entries) : h.Unmade meanwhile k' := by
  refine ⟨by rw [he]; exact hu.length, hr.trans hu.entries, fun id e hid => ?_⟩
  unfold execution?
  rw [he]
  exact hu.untouched id e hid

theorem Made.same (hm : h.Made o meanwhile k id) (he : k'.executions = k.executions)
    (hr : k'.registry.entries = k.registry.entries) : h.Made o meanwhile k' id := by
  have hsame (j : ExecutionId) : k'.execution? j = k.execution? j := by unfold execution?; rw [he]
  refine ⟨hm.fresh, ?_, hr.trans hm.entries, fun j e hj => ?_⟩
  · rw [hsame]
    exact hm.created
  · rw [hsame]
    exact hm.untouched j e hj

theorem Unmade.register (hu : h.Unmade meanwhile k) (o : Order) (unit : ExecutableUnit) :
    h.Made o meanwhile (k.registerExecution o unit).2 k.executions.length where
  fresh := hu.length
  created := ⟨unit, k.tokens.length, (execution?_registerExecution k o unit _).trans (if_pos rfl)⟩
  entries := by
    rw [← hu.entries]
    rfl
  untouched id e he :=
    (hu.untouched id e he).imp (fun h => execution?_registerExecution_of_some h o unit)
      (And.imp_right (And.imp_right fun ⟨r, h⟩ => ⟨r, execution?_registerExecution_of_some h o unit⟩))

/-- What did not run at the first look does not run at the second. -/
theorem Unmade.live? (hu : h.Unmade meanwhile k) {n : String} (hl : h.live? n = none) : k.live? n = none := by
  cases hk : k.live? n with
  | none => rfl
  | some id =>
    obtain ⟨hn, e, he, hr⟩ := live?_eq_some hk
    unfold registered? at hn
    rw [hu.entries] at hn
    have hlt : id < h.executions.length := by
      rw [← hu.length]
      exact (List.getElem?_eq_some_iff.1 he).1
    have h0 : h.execution? id = some h.executions[id] := List.getElem?_eq_getElem hlt
    rcases hu.untouched id _ h0 with hsame | ⟨-, -, o, hfin⟩
    · cases hsame.symm.trans he
      exact absurd hr (not_running_of_live? hl hn h0)
    · cases hfin.symm.trans he
      cases hr

/-! ## What happens meanwhile -/

section

variable {late : List ExecutionId} {ev : Event}

theorem Untouched.event (hu : Untouched meanwhile h k) (hord : Orderly late k) (hm : k.Manned) (hev : ev.Unasked)
    (hs : k.after? ev = some k') : Untouched (meanwhile ++ [ev]) h k' := by
  have ha := hord.aside_of_unasked hev hs
  have hsome : meanwhile ++ [ev] ≠ [] := by simp
  intro id e he
  rcases hu id e he with hsame | ⟨-, hc, o, hfin⟩
  · rcases ha.forward hsame with hkept | ⟨o, hfin⟩
    · exact .inl hkept
    · refine .inr ⟨hsome, fun hc => ?_, o, hfin⟩
      -- it is only created, so no body ends it
      have hstays := hm.created_kept hord.alone hev hs hsame hc
      rw [hfin, Option.some.injEq] at hstays
      have hstate : ExecutionState.finished = e.state := congrArg Execution.state hstays
      rw [hc] at hstate
      cases hstate
  · rcases ha.forward hfin with hkept | ⟨o', hfin'⟩
    · exact .inr ⟨hsome, hc, o, hkept⟩
    · exact .inr ⟨hsome, hc, o', hfin'⟩

theorem Unmade.event (hu : h.Unmade meanwhile k) (hord : Orderly late k) (hm : k.Manned) (hev : ev.Unasked)
    (hs : k.after? ev = some k') : h.Unmade (meanwhile ++ [ev]) k' := by
  have ha := hord.aside_of_unasked hev hs
  exact ⟨ha.length.trans hu.length, by rw [ha.registry]; exact hu.entries, hu.untouched.event hord hm hev hs⟩

theorem Made.event (hmade : h.Made o meanwhile k id) (hord : Orderly late k) (hm : k.Manned) (hev : ev.Unasked)
    (hs : k.after? ev = some k') : h.Made o (meanwhile ++ [ev]) k' id := by
  have ha := hord.aside_of_unasked hev hs
  obtain ⟨unit, token, hnew⟩ := hmade.created
  refine ⟨hmade.fresh, ⟨unit, token, ?_⟩, by rw [ha.registry]; exact hmade.entries,
    hmade.untouched.event hord hm hev hs⟩
  exact hm.created_kept hord.alone hev hs hnew rfl

end

/-! ## From stage to stage -/

section

variable {asked : List Inquiry} {g : Fulfilment} {p : Fulfilment.Phase}

theorem Stage.moves (hst : h.Stage g.order asked meanwhile k g.phase) (hl : h.live? g.name = none)
    (hn : g.starts = false) (hm : g.Moves k k' p) : h.Stage g.order (asked ++ g.inquiries k) meanwhile k' p := by
  -- where no sources are looked for, nothing is asked
  have silent (hp : ∀ token, g.phase ≠ .resolve token) : asked ++ g.inquiries k = asked := by
    rw [Fulfilment.inquiries_of_ne hp, List.append_nil]
  cases hm with
  | found hp _ | missed hp _ | start hp => rw [hp] at hst; exact hst.elim
  | lock hp _ | missedAgain hp _ | announce hp =>
    rw [silent (by rw [hp]; exact nofun)]
    rw [hp] at hst
    exact ⟨hst.1, hst.2.same rfl rfl⟩
  | foundAgain hp hlive =>
    rw [hp] at hst
    cases (hst.2.live? hl).symm.trans hlive
  | unresolved hp _ | resolved hp _ _ =>
    have honce := Fulfilment.askedOnce_inquiries (h := k) hp
    rw [hp] at hst
    obtain ⟨rfl, hu⟩ := hst
    exact ⟨honce, hu⟩
  | @compiled _ unit? hp =>
    rw [silent (by rw [hp]; exact nofun)]
    rw [hp] at hst
    exact hst
  | compiling hp hw =>
    have q := Activity.quiet_step hw
    rw [silent (by rw [hp]; exact nofun)]
    rw [hp] at hst
    exact ⟨hst.1, hst.2.same q.executions (by rw [q.registry])⟩
  | @retract result hp =>
    rw [silent (by rw [hp]; exact nofun)]
    rw [hp] at hst
    cases result <;> exact ⟨hst.1, hst.2.same rfl rfl⟩
  | @register unit hp =>
    rw [silent (by rw [hp]; exact nofun)]
    rw [hp] at hst
    exact ⟨hst.1, hst.2.register g.order unit⟩
  | @release result hp =>
    rw [silent (by rw [hp]; exact nofun)]
    rw [hp] at hst
    cases result with
    | error e => exact ⟨hst.1, hst.2.same rfl rfl⟩
    | ok id =>
      have hdone : g.found id = .done (.ok id) := by
        unfold Fulfilment.found
        rw [hn]
        rfl
      simp only [hdone]
      exact ⟨hst.1, hst.2.same rfl rfl⟩

theorem Stage.event {late : List ExecutionId} {ev : Event} (hst : h.Stage o asked meanwhile k p) (hord : Orderly late k)
    (hm : k.Manned) (hev : ev.Unasked) (hs : k.after? ev = some k') : h.Stage o asked (meanwhile ++ [ev]) k' p := by
  cases p with
  | lookUp | start => exact hst.elim
  | wantBuild | lookAgain | announce | resolve | compile | retract | register =>
    exact ⟨hst.1, hst.2.event hord hm hev hs⟩
  | release result => cases result <;> exact ⟨hst.1, hst.2.event hord hm hev hs⟩
  | done result =>
    cases result with
    | ok id => exact ⟨hst.1, hst.2.event hord hm hev hs⟩
    | error e =>
      cases e with
      | resolution e => exact ⟨hst.1, hst.2.event hord hm hev hs⟩
      | spawn e => exact hst.elim

end

end

/-! ## To the answer -/

section

variable {h0 h k k' : Host} {late : List ExecutionId} {self : ThreadId} {o : Order} {asked : List Inquiry}
  {meanwhile : List Event} {f g : Fulfilment}

theorem Pursued.course (hp : h.Pursued f asked meanwhile k g) : Course Event.Unasked (fun h f => f.step h) h f k g := by
  induction hp with
  | look hs => exact .move .start hs
  | move _ hs ih => exact .move ih hs
  | event _ _ hev hs ih => exact .event ih hev hs

/-- Only the phase of a fulfilment changes. -/
theorem Pursued.same (hp : h.Pursued f asked meanwhile k g) : g = { f with phase := g.phase } := by
  induction hp with
  | look hs => exact (Fulfilment.moves_of_step hs).2
  | move _ hs ih => rw [(Fulfilment.moves_of_step hs).2, ih]
  | event _ _ _ _ ih => exact ih

variable (hf : h0.Fresh) (ho : h0.Operated late h)

include hf ho

/-- What is known of the host while an order is being fulfilled. -/
theorem Pursued.known (hp : h.Pursued (asking self o) asked meanwhile k g) :
    (Orderly late k ∧ Making k g) ∧ k.Manned ∧ g.Alone k := by
  obtain ⟨hord, hcomp⟩ := orderly_of_operated hf ho
  obtain ⟨hm, hb⟩ := idle_of_operated hf ho
  have hmaking : Making h (asking self o) := making_lookUp hcomp rfl
  exact ⟨hord.fulfilling hmaking hp.course, alone_course hord hmaking hm (alone_lookUp hb rfl) hp.course⟩

theorem stage_of_pursued (hl : h.live? o.threadName = none) (hp : h.Pursued (asking self o) asked meanwhile k g) :
    h.Stage o asked meanwhile k g.phase := by
  induction hp with
  | @look k g hs =>
    have hm := (Fulfilment.moves_of_step hs).1
    generalize g.phase = p at hm
    cases hm with
    | found _ hlive => cases hl.symm.trans hlive
    | missed => exact ⟨rfl, rfl, rfl, fun _ _ he => .inl he⟩
    | lock hp _ | foundAgain hp _ | missedAgain hp _ | announce hp | unresolved hp _ | resolved hp _ _ | compiled hp
    | compiling hp _ | retract hp | register hp | release hp | start hp => cases hp
  | @move asked meanwhile k k' g g' hp hs ih =>
    have hsame := hp.same
    generalize g.phase = p at hsame
    subst hsame
    exact Stage.moves ih hl rfl (Fulfilment.moves_of_step hs).1
  | event hp _ hev hs ih =>
    obtain ⟨⟨hord, -⟩, hm, -⟩ := hp.known hf ho
    exact ih.event hord hm hev hs

/-- At the answer nobody builds any more and nothing is being made ready, as at the first look. -/
theorem registry_of_answer (hp : h.Pursued (asking self o) asked meanwhile k g) {r : Except OrderError ExecutionId}
    (hd : g.phase = .done r) : k.registry = { h.registry with entries := k.registry.entries } := by
  obtain ⟨⟨-, hmaking⟩, -, halone⟩ := hp.known hf ho
  have hcompiling : k.registry.compiling = h.registry.compiling := by
    rw [(orderly_of_operated hf ho).2]
    exact hmaking.unannounced (by rw [hd]; exact id)
  have hbuilders : k.registry.builders = h.registry.builders := by
    rw [(idle_of_operated hf ho).2]
    exact halone.free (by rw [hd]; exact id)
  show k.registry = ⟨k.registry.entries, h.registry.builders, h.registry.compiling⟩
  rw [← hcompiling, ← hbuilders]

/-- Nothing holds an order up but its own compiler. -/
theorem held_up_of_pursued (hp : h.Pursued (asking self o) asked meanwhile k g) (hs : g.step k = none) :
    (∃ r, g.phase = .done r) ∨ ∃ token work, g.phase = .compile token work ∧ work.step { self } k = none := by
  rcases Fulfilment.waits_of_step hs with hd | ⟨token, work, hc, -, hw⟩ | ⟨hb, hother⟩
  · exact .inl hd
  · rw [hp.same] at hw
    exact .inr ⟨token, work, hc, hw⟩
  · have hfree := (hp.known hf ho).2.2.free (by rw [hb]; exact id)
    rw [hfree] at hother
    cases hother

end

/-! ## There is an answer -/

/-- The host on which an order has its sources compiled if nobody comes between. -/
def announced (h : Host) (self : ThreadId) (o : Order) : Host :=
  { h.newToken.2 with registry := { h.registry with
      builders := Assoc.insert o.threadName self h.registry.builders
      compiling := Assoc.insert o.threadName h.tokens.length h.registry.compiling } }

/-- An order comes to a phase by moves of its own alone. -/
def ComesTo (h : Host) (self : ThreadId) (o : Order) (k : Host) (p : Fulfilment.Phase) : Prop :=
  ∃ asked, h.Pursued (asking self o) asked [] k (askingAt self o p)

end Host

/-- A routine on its way comes to its end by moves of its own alone. -/
inductive Activity.Ends {α : Type} (seat : Seat) : Host → Activity α → Prop
  | done (h : Host) (a : α) : Ends seat h (.done a)
  | move {h k : Host} {a b : Activity α} : a.step seat h = some (k, b) → Ends seat k b → Ends seat h a

namespace Host

section

variable {h k k' : Host} {self : ThreadId} {o : Order} {p p' : Fulfilment.Phase}

theorem ComesTo.move (hc : h.ComesTo self o k p)
    (hs : (askingAt self o p).step k = some (k', askingAt self o p')) : h.ComesTo self o k' p' := by
  obtain ⟨asked, hp⟩ := hc
  exact ⟨_, hp.move hs⟩

theorem ComesTo.answers {r : Except OrderError ExecutionId} (hc : h.ComesTo self o k (.done r)) :
    ∃ asked k r, h.Answers self o asked [] k r := by
  obtain ⟨asked, hp⟩ := hc
  exact ⟨asked, k, r, _, hp, rfl⟩

theorem ComesTo.release {result : Except ResolutionError ExecutionId} (hc : h.ComesTo self o k (.release result)) :
    ∃ asked k r, h.Answers self o asked [] k r := by
  cases result with
  | ok id => exact ComesTo.answers (hc.move rfl)
  | error e => exact ComesTo.answers (hc.move rfl)

theorem ComesTo.retract {result : Except ResolutionError ExecutableUnit} (hc : h.ComesTo self o k (.retract result)) :
    ∃ asked k r, h.Answers self o asked [] k r := by
  cases result with
  | error e => exact ComesTo.release (hc.move rfl)
  | ok unit =>
    have hr : h.ComesTo self o _ (.register unit) := hc.move rfl
    exact ComesTo.release (hr.move rfl)

theorem ComesTo.compile {token : TokenId} {work : Activity (Option ExecutableUnit)}
    (hc : h.ComesTo self o k (.compile token work)) (he : Activity.Ends { self } k work) :
    ∃ asked k r, h.Answers self o asked [] k r := by
  induction he with
  | done k unit? =>
    cases unit? with
    | none => exact ComesTo.retract (hc.move rfl)
    | some unit => exact ComesTo.retract (hc.move rfl)
  | @move k k' work work' hs _ ih =>
    refine ih (hc.move ?_)
    cases work with
    | done => cases hs
    | going | polling =>
      simp only [Fulfilment.step, askingAt, hs]
      rfl

/-- An order is answered if the compiler comes to its end with the sources that are found. -/
theorem exists_answer (hl : h.live? o.threadName = none) (hb : h.registry.builders = [])
    (he : ∀ sources, h.environment.resolve o.sourceId = .ok sources → sources ≠ [] →
      Activity.Ends { self } (h.announced self o) (.going (h.environment.compile h.tokens.length sources))) :
    ∃ asked k r, h.Answers self o asked [] k r := by
  have hwant : h.ComesTo self o h .wantBuild := by
    refine ⟨_, .look ?_⟩
    simp only [Fulfilment.step, askingAt, hl]
  have hagain : h.ComesTo self o { h with registry := { h.registry with
      builders := Assoc.insert o.threadName self h.registry.builders } } .lookAgain := by
    refine hwant.move ?_
    have hfree : Assoc.contains o.threadName h.registry.builders = false := by rw [hb]; rfl
    simp only [Fulfilment.step, askingAt, hfree]
    rfl
  have hannounce : h.ComesTo self o { h with registry := { h.registry with
      builders := Assoc.insert o.threadName self h.registry.builders } } .announce := by
    refine hagain.move ?_
    have hsame : ({ h with registry := { h.registry with
        builders := Assoc.insert o.threadName self h.registry.builders } } : Host).live? o.threadName = none := hl
    simp only [Fulfilment.step, askingAt, hsame]
  have hresolve : h.ComesTo self o (h.announced self o) (.resolve h.tokens.length) := hannounce.move rfl
  have hsame : (h.announced self o).environment.resolve = h.environment.resolve := rfl
  cases hr : h.environment.resolve o.sourceId with
  | error e =>
    have hretract : h.ComesTo self o (h.announced self o) (.retract (.error e)) :=
      hresolve.move (by simp only [Fulfilment.step, askingAt, hsame, hr])
    exact hretract.retract
  | ok sources =>
    cases sources with
    | nil =>
      have hretract : h.ComesTo self o (h.announced self o) (.retract (.error (.notFound o.sourceId))) :=
        hresolve.move (by simp only [Fulfilment.step, askingAt, hsame, hr])
      exact hretract.retract
    | cons s rest =>
      have hcompile : h.ComesTo self o (h.announced self o)
          (.compile h.tokens.length (.going (h.environment.compile h.tokens.length (s :: rest)))) := by
        refine hresolve.move ?_
        simp only [Fulfilment.step, askingAt, hsame, hr]
        rfl
      exact hcompile.compile (he _ hr nofun)

end

/-! ## The theorem -/

section

variable {h : Host} {n : String} {id : ExecutionId} {e : Execution}

theorem live?_eq_none (hn : ∀ id e, h.registered? n = some id → h.execution? id = some e → e.state ≠ .running) :
    h.live? n = none := by
  cases hl : h.live? n with
  | none => rfl
  | some id =>
    obtain ⟨hreg, e, he, hr⟩ := live?_eq_some hl
    exact absurd hr (hn id e hreg he)

theorem live?_of_running (hn : h.registered? n = some id) (he : h.execution? id = some e) (hr : e.state = .running) :
    h.live? n = some id := by
  cases hl : h.live? n with
  | none => exact absurd hr (not_running_of_live? hl hn he)
  | some j => exact (live?_eq_some hl).1.symm.trans hn

end

/-- An order whose name has a running execution is answered with it at once, and nothing else is so. -/
theorem answer_of_live {h : Host} {self : ThreadId} {o : Order} {id : ExecutionId}
    (hl : h.live? o.threadName = some id) : h.Answers self o [] [] h (.ok id) ∧
      ∀ asked meanwhile k r, h.Answers self o asked meanwhile k r → asked = [] ∧ k = h ∧ r = .ok id := by
  have hlook : (asking self o).step h = some (h, askingAt self o (.done (.ok id))) := by
    simp only [Fulfilment.step, askingAt, hl]
    rfl
  refine ⟨⟨_, .look hlook, rfl⟩, ?_⟩
  suffices hp : ∀ asked meanwhile k g, h.Pursued (asking self o) asked meanwhile k g →
      asked = [] ∧ k = h ∧ g = askingAt self o (.done (.ok id)) by
    rintro asked meanwhile k r ⟨g, hg, hr⟩
    obtain ⟨ha, hk, rfl⟩ := hp _ _ _ _ hg
    cases hr
    exact ⟨ha, hk, rfl⟩
  intro asked meanwhile k g hg
  induction hg with
  | look hs =>
    cases hlook.symm.trans hs
    exact ⟨rfl, rfl, rfl⟩
  | move _ hs ih =>
    obtain ⟨-, -, rfl⟩ := ih
    cases hs
  | event _ hd _ _ ih =>
    obtain ⟨-, -, rfl⟩ := ih
    exact absurd rfl (hd _)

/-- After any complete operations, an order whose name is registered for a running execution is answered with
that one, and nothing is asked of the surroundings and nothing changed. Every other order is held up by
nothing but its compiler, and is answered if the compiler comes to its end; by then the sources were looked
for once and compiled at most once. The answer is a new execution as the order says, only created, and the
registry has gained its entry and nothing else; or it is an error of the search or of the compiler, and the
registry is as it was. All other executions are as they were but those that ended on their own. -/
theorem answered_as_asked {h0 h : Host} {late : List ExecutionId} (hf : h0.Fresh) (ho : h0.Operated late h)
    (self : ThreadId) (o : Order) :
    (∀ id e, h.registered? o.threadName = some id → h.execution? id = some e → e.state = .running →
      h.Answers self o [] [] h (.ok id) ∧
      ∀ asked meanwhile k r, h.Answers self o asked meanwhile k r → asked = [] ∧ k = h ∧ r = .ok id) ∧
    ((∀ id e, h.registered? o.threadName = some id → h.execution? id = some e → e.state ≠ .running) →
      (∀ asked meanwhile k g, h.Pursued (asking self o) asked meanwhile k g → g.step k = none →
        (∃ r, g.phase = .done r) ∨ ∃ token work, g.phase = .compile token work ∧ work.step { self } k = none) ∧
      ((∀ sources, h.environment.resolve o.sourceId = .ok sources → sources ≠ [] →
        Activity.Ends { self } (h.announced self o) (.going (h.environment.compile h.tokens.length sources))) →
          ∃ asked k r, h.Answers self o asked [] k r) ∧
      ∀ asked meanwhile k r, h.Answers self o asked meanwhile k r → AskedOnce o.sourceId asked ∧
        ((∃ id, r = .ok id ∧ h.Made o meanwhile k id ∧
            k.registry = { h.registry with entries := Assoc.insert o.threadName id h.registry.entries }) ∨
          ∃ e, r = .error (.resolution e) ∧ h.Unmade meanwhile k ∧ k.registry = h.registry)) := by
  refine ⟨fun id e hn he hr => answer_of_live (live?_of_running hn he hr), fun hnone => ?_⟩
  have hl := live?_eq_none hnone
  refine ⟨fun _ _ _ _ hp hs => held_up_of_pursued hf ho hp hs, exists_answer hl (idle_of_operated hf ho).2, ?_⟩
  rintro asked meanwhile k r ⟨g, hp, hd⟩
  have hst := stage_of_pursued hf ho hl hp
  have hreg := registry_of_answer hf ho hp hd
  rw [hd] at hst
  cases r with
  | ok id =>
    obtain ⟨honce, hmade⟩ := hst
    rw [hmade.entries] at hreg
    exact ⟨honce, .inl ⟨id, rfl, hmade, hreg⟩⟩
  | error e =>
    cases e with
    | spawn e => exact hst.elim
    | resolution e =>
      obtain ⟨honce, hunmade⟩ := hst
      rw [hunmade.entries] at hreg
      exact ⟨honce, .inr ⟨e, rfl, hunmade, hreg⟩⟩

/-- The execution of an order is started. -/
def atWork : Host := ((plain.fulfil job false).1.start 0).2

theorem operated_atWork : plain.Operated [] atWork := by
  have h0 : plain.Operated [] plain := .start
  have h1 := h0.fulfil job false (by decide +kernel)
  have hs : (plain.fulfil job false).1.after? (.start 0) = some atWork := rfl
  have hl : (plain.fulfil job false).1.lateStart (.start 0) = [] := by decide +kernel
  have h2 := h1.event (fun _ _ h => by cases h) hs
  rw [hl] at h2
  exact h2

theorem atWork_answered : atWork.Answers 7 job [] [] atWork (.ok 0) ∧
    ∃ asked k r, atWork.Answers 7 { job with threadName := "other" } asked [] k r ∧ AskedOnce "s" asked := by
  constructor
  · obtain ⟨e, he, hr⟩ : ∃ e, atWork.execution? 0 = some e ∧ e.state = .running := ⟨_, rfl, rfl⟩
    exact ((answered_as_asked fresh_plain operated_atWork 7 job).1 0 e rfl he hr).1
  · have hnone : ∀ id e, atWork.registered? "other" = some id → atWork.execution? id = some e → e.state ≠ .running :=
      fun _ _ hn => by cases hn
    obtain ⟨-, hanswer, hsay⟩ :=
      (answered_as_asked fresh_plain operated_atWork 7 { job with threadName := "other" }).2 hnone
    obtain ⟨asked, k, r, hr⟩ := hanswer fun _ _ _ => .move rfl (.done _ _)
    exact ⟨asked, k, r, hr, (hsay _ _ _ _ hr).1⟩

end Host

end Scripting
