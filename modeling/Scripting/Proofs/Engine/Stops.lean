/-
How an execution of a script ends that may be stopped meanwhile. The unit looks at the stop flag before it
calls the function, and once more if the call has given no value. Where that second look finds the flag up,
whatever the call failed with is put down to the stop; a value is handed on unseen. The token is lent to the
engine for the call alone.
-/
import Scripting.Engine.Unit
import Scripting.Proofs.Host.Routines

namespace Scripting

/-! ## How a call fails -/

namespace Engine

/-- What a call of a function under a name can fail with: there is no function, it throws, an argument holds
what must not leave the host, or an argument or the result has no form on the other side. -/
inductive CallFails (e : Engine) (name : String) : EngineError → Prop
  | missing : e.function? name = none → CallFails e name (.functionNotFound name)
  | thrown (text : String) : e.function? name ≠ none → CallFails e name (.script s!"Error calling {name}: {text}")
  | leaks (typeName : String) : e.function? name ≠ none → CallFails e name (.bridge (.leak name typeName))
  | unconverted (text : String) : e.function? name ≠ none → CallFails e name (.conversion text)

theorem CallFails.of_setToken {e : Engine} {token : Option TokenId} {name : String} {x : EngineError}
    (h : (e.setToken token).CallFails name x) : e.CallFails name x := by
  cases h with
  | missing hf => exact .missing hf
  | thrown text hf => exact .thrown text hf
  | leaks typeName hf => exact .leaks typeName hf
  | unconverted text hf => exact .unconverted text hf

section

variable {e e' : Engine} {name : String} {said : Dialogue} {x : EngineError}

theorem run_error {α : Type} {asError : Js.Heap → Js.Abrupt → EngineError} {p : Js.Run α}
    (h : (e.run asError p).Ends said (.error x, e')) : ∃ heap a, x = asError heap a := by
  unfold run at h
  obtain ⟨_, _, ⟨r, machine⟩, -, -, h⟩ := h.of_bind
  cases r with
  | ok a => cases h
  | error a =>
    cases h
    exact ⟨_, _, rfl⟩

/-- What runs on the engine fails with an error of its own, and the value that it gives with one of reading. -/
theorem runToValue_error {asError : String → EngineError} {p : Js.Run Js.Value}
    (h : (e.runToValue asError p).Ends said (.error x, e')) :
    (∃ text, x = asError text) ∨ ∃ text, x = .conversion text := by
  unfold runToValue at h
  obtain ⟨_, _, ⟨r, e1⟩, -, hrun, h⟩ := h.of_bind
  cases r with
  | error a =>
    cases h
    obtain ⟨heap, a, rfl⟩ := run_error hrun
    exact .inl ⟨_, rfl⟩
  | ok v =>
    obtain ⟨_, a, rfl⟩ := run_error h
    exact .inr ⟨_, rfl⟩

theorem exported_error {shapes : Shapes} {v : Value} {x : BridgeError} (h : shapes.exported name v = .error x) :
    ∃ typeName, x = .leak name typeName := by
  unfold Shapes.exported at h
  cases ht : (Exported.ofValue shapes v).firstSealed? with
  | some typeName =>
    simp only [ht] at h
    cases h
    exact ⟨typeName, rfl⟩
  | none =>
    simp only [ht] at h
    cases h

/-- An argument is refused by the bridge, or fails to be written. -/
theorem passArgument_error {v : Value} (h : (e.passArgument name v).Ends said (.error x, e')) :
    (∃ typeName, x = .bridge (.leak name typeName)) ∨ ∃ text, x = .conversion text := by
  unfold passArgument at h
  obtain ⟨shapes, _, -, h⟩ := Routine.Ends.of_demand h
  cases hx : shapes.exported name v with
  | error leak =>
    rw [hx] at h
    cases h
    obtain ⟨typeName, rfl⟩ := exported_error hx
    exact .inl ⟨typeName, rfl⟩
  | ok tree =>
    rw [hx] at h
    obtain ⟨heap, a, rfl⟩ := run_error h
    exact .inr ⟨_, rfl⟩

/-- Arguments fail as the first of them does that fails. -/
theorem passArguments_error {passed : List Js.Value} {args : List Value}
    (h : (passArguments name passed e args).Ends said (.error x, e')) :
    (∃ typeName, x = .bridge (.leak name typeName)) ∨ ∃ text, x = .conversion text := by
  induction args generalizing e said passed with
  | nil => cases h
  | cons v rest ih =>
    rw [passArguments] at h
    obtain ⟨_, _, ⟨r, e1⟩, -, hpass, h⟩ := h.of_bind
    cases r with
    | error a =>
      cases h
      exact passArgument_error hpass
    | ok w => exact ih h

theorem callFails_of_ends {args : List Value} (h : (e.call name args).Ends said (.error x, e')) :
    e.CallFails name x := by
  unfold call at h
  cases hf : e.function? name with
  | none =>
    rw [hf] at h
    cases h
    exact .missing hf
  | some f =>
    have hne : e.function? name ≠ none := by rw [hf]; exact nofun
    simp only [hf] at h
    obtain ⟨_, _, ⟨r, e1⟩, -, hpass, h⟩ := h.of_bind
    cases r with
    | error a =>
      cases h
      rcases passArguments_error hpass with ⟨typeName, rfl⟩ | ⟨text, rfl⟩
      · exact .leaks typeName hne
      · exact .unconverted text hne
    | ok values =>
      rcases runToValue_error h with ⟨text, rfl⟩ | ⟨text, rfl⟩
      · exact .thrown text hne
      · exact .unconverted text hne

end

end Engine

/-! ## What failures say -/

namespace ScriptUnit

variable {u : ScriptUnit} {name : String}

/-- The failure of a missing function. -/
def unknown (name : String) : String := (ScriptError.unknownFunction name).message

theorem length_unknown (name : String) : (unknown name).length = 18 + name.length := by
  have htext : unknown name = "Unknown function: " ++ name := rfl
  rw [htext, String.length_append]
  rfl

/-- The text of a failure is longer than that of a missing function if it names the function itself. -/
theorem message_ne_unknown {text : String} (h : 18 + name.length < text.length) : text ≠ unknown name := by
  rintro rfl
  rw [length_unknown] at h
  omega

/-- What is said of a missing function is said of no other failure but that of a conversion: there the name of
the unit and the text of the conversion may make it so. -/
theorem message_eq_unknown {x : EngineError} (hx : u.engine.CallFails name x) :
    (u.engine.function? name = none → (u.scriptError false x).message = unknown name) ∧
      ((u.scriptError false x).message = unknown name → u.engine.function? name = none ∨
        ∃ said, x = .conversion said) := by
  cases hx with
  | missing hf => exact ⟨fun _ => rfl, fun _ => .inl hf⟩
  | thrown text hf =>
    refine ⟨fun h => absurd h hf, fun h => absurd h (message_ne_unknown ?_)⟩
    have htext : (u.scriptError false (.script s!"Error calling {name}: {text}")).message =
        u.name ++ ": " ++ ("JavaScript error: " ++ ("Error calling " ++ name ++ ": " ++ text)) := rfl
    rw [htext]
    simp only [String.length_append]
    have : "JavaScript error: ".length = 18 := rfl
    have : ": ".length = 2 := rfl
    omega
  | leaks typeName hf =>
    refine ⟨fun h => absurd h hf, fun h => absurd h (message_ne_unknown ?_)⟩
    have htext : (u.scriptError false (.bridge (.leak name typeName))).message =
        u.name ++ ": " ++ (name ++ " returned an unconvertible " ++ typeName) := rfl
    rw [htext]
    simp only [String.length_append]
    have : " returned an unconvertible ".length = 27 := rfl
    omega
  | unconverted text hf => exact ⟨fun h => absurd h hf, fun _ => .inr ⟨text, rfl⟩⟩

/-! ## The token of the engine -/

/-- A unit that the compiler has made of some sources, and what it becomes by being executed. -/
inductive Made : ScriptUnit → Prop
  | compiled {natives : Natives} {token : TokenId} {sources : List Source} {said : Dialogue} {u : ScriptUnit} :
      (compile? natives token sources).Ends said (some u) → Made u
  | executed {u u' : ScriptUnit} {c : Context} {name : String} {args : List Value} {said : Dialogue}
      {r : Except ScriptError Value} : Made u → (u.execute c name args).Ends said (r, u') → Made u'

theorem token_of_compile {natives : Natives} {token : TokenId} {sources : List Source} {said : Dialogue}
    (h : (compile? natives token sources).Ends said (some u)) : u.engine.machine.token = none := by
  unfold compile? at h
  obtain ⟨_, _, ⟨ok, e⟩, -, -, h⟩ := h.of_bind
  cases ok with
  | true =>
    cases h
    rfl
  | false =>
    obtain ⟨stopped, _, -, h⟩ := Routine.Ends.of_demand h
    cases stopped with
    | true => cases h
    | false =>
      obtain ⟨_, _, -, h⟩ := Routine.Ends.of_demand h
      cases h

/-- The unit behind a call. -/
def back (u : ScriptUnit) (engine : Engine) : ScriptUnit := { u with engine := engine.setToken none }

/-- What is made of the result of a call: a value is handed on, and an error is looked at with the stop flag. -/
def conclude (u : ScriptUnit) (c : Context) : Except EngineError Value × Engine →
    Routine (Except ScriptError Value × ScriptUnit)
  | (.ok v, engine) => .done (.ok v, u.back engine)
  | (.error x, engine) => c.isStopped >>= fun stopped => .done (.error (u.scriptError stopped x), u.back engine)

/-- An execution is a look at the flag, a call with the token, and what is made of the result. -/
theorem execute_eq (u : ScriptUnit) (c : Context) (name : String) (args : List Value) :
    u.execute c name args = Routine.demand (.isStopped c.token) >>= fun stopped =>
      if stopped then .done (.error .stopped, u)
      else (u.engine.setToken c.token).call name args >>= u.conclude c := by
  refine congrArg (Routine.ask _) (funext fun stopped => ?_)
  cases stopped with
  | true => rfl
  | false =>
    refine congrArg ((u.engine.setToken c.token).call name args >>= ·) (funext fun x => ?_)
    obtain ⟨_ | v, engine⟩ := x <;> rfl

theorem token_of_execute {u' : ScriptUnit} {c : Context} {args : List Value} {said : Dialogue}
    {r : Except ScriptError Value} (hu : u.engine.machine.token = none)
    (h : (u.execute c name args).Ends said (r, u')) : u'.engine.machine.token = none := by
  rw [execute_eq] at h
  obtain ⟨stopped, _, -, h⟩ := Routine.Ends.of_demand h
  cases stopped with
  | true =>
    cases h
    exact hu
  | false =>
    obtain ⟨_, _, ⟨r, engine⟩, -, -, h⟩ := h.of_bind
    cases r with
    | ok v =>
      cases h
      rfl
    | error x =>
      obtain ⟨_, _, -, h⟩ := Routine.Ends.of_demand h
      cases h
      rfl

theorem Made.token (hu : u.Made) : u.engine.machine.token = none := by
  induction hu with
  | compiled h => exact token_of_compile h
  | executed _ h ih => exact token_of_execute ih h

/-! ## How an execution ends -/

/-- How an execution of a function of a unit may go from one host to another, while events of a kind happen: the
outcome, and the unit behind it. -/
inductive Goes (u : ScriptUnit) (c : Context) (name : String) (args : List Value) (between : Host.Event → Prop)
    (seat : Seat) (h k : Host) : Outcome → ScriptUnit → Prop
  /-- The flag is up before anything is called. -/
  | early {h1 : Host} : Host.Passes between h h1 → h1.isStopped c.token = true → Host.Passes between h1 k →
      Goes u c name args between seat h k {} u
  /-- The call gives a value, whether the flag has gone up meanwhile or not. -/
  | value {h1 k1 : Host} {v : Value} {engine : Engine} : Host.Passes between h h1 → h1.isStopped c.token = false →
      Host.Course between (Activity.step seat) h1 (.going ((u.engine.setToken c.token).call name args)) k1
        (.going (.done (.ok v, engine))) →
      Host.Passes between k1 k → Goes u c name args between seat h k { value := some v } (u.back engine)
  /-- The call fails, and the flag is up. -/
  | stopped {h1 k1 k2 : Host} {x : EngineError} {engine : Engine} : Host.Passes between h h1 →
      h1.isStopped c.token = false →
      Host.Course between (Activity.step seat) h1 (.going ((u.engine.setToken c.token).call name args)) k1
        (.going (.done (.error x, engine))) →
      Host.Passes between k1 k2 → k2.isStopped c.token = true → Host.Passes between k2 k →
      Goes u c name args between seat h k {} (u.back engine)
  /-- The call fails, and the flag is down. -/
  | failed {h1 k1 k2 : Host} {x : EngineError} {engine : Engine} : Host.Passes between h h1 →
      h1.isStopped c.token = false →
      Host.Course between (Activity.step seat) h1 (.going ((u.engine.setToken c.token).call name args)) k1
        (.going (.done (.error x, engine))) →
      Host.Passes between k1 k2 → k2.isStopped c.token = false → Host.Passes between k2 k →
      Goes u c name args between seat h k { failure := some (u.scriptError false x).message } (u.back engine)

/-- The outcome of an execution that ends with a result. -/
def outcomeOf : Except ScriptError Value → Outcome
  | .ok v => (Ending.value v).outcome
  | .error e => (Ending.error e).outcome

section

variable {c : Context} {args : List Value} {between : Host.Event → Prop} {seat : Seat} {h k : Host}

theorem goes_of_execute {r : Except ScriptError Value} {u' : ScriptUnit}
    (hc : Host.Course between (Activity.step seat) h (.going (u.execute c name args)) k (.done (r, u'))) :
    u.Goes c name args between seat h k (outcomeOf r) u' := by
  rw [execute_eq] at hc
  obtain ⟨h1, hp, hc⟩ := hc.of_isStopped
  cases hst : h1.isStopped c.token with
  | true =>
    rw [hst] at hc
    obtain ⟨heq, hq⟩ := hc.of_done
    cases heq
    exact .early hp hst hq
  | false =>
    rw [hst] at hc
    obtain ⟨k1, ⟨result, engine⟩, hcall, hc⟩ := Host.Course.of_bind hc
    cases result with
    | ok v =>
      obtain ⟨heq, hq⟩ := hc.of_done
      cases heq
      exact .value hp hst hcall hq
    | error x =>
      obtain ⟨k2, hp2, hc⟩ := hc.of_isStopped
      obtain ⟨heq, hq⟩ := hc.of_done
      cases heq
      cases hst2 : k2.isStopped c.token with
      | true => exact .stopped hp hst hcall hp2 hst2 hq
      | false =>
        have hfailed : outcomeOf (.error (u.scriptError false x)) =
            { failure := some (u.scriptError false x).message } := by
          cases x <;> rfl
        rw [hfailed]
        exact .failed hp hst hcall hp2 hst2 hq

theorem Goes.later {o : Outcome} {u' : ScriptUnit} (hg : u.Goes c name args between seat h k o u') {k' : Host}
    (hp : Host.Passes between k k') : u.Goes c name args between seat h k' o u' := by
  cases hg with
  | early h1 hst hq => exact .early h1 hst (hq.trans hp)
  | value h1 hst hcall hq => exact .value h1 hst hcall (hq.trans hp)
  | stopped h1 hst hcall h2 hst2 hq => exact .stopped h1 hst hcall h2 hst2 (hq.trans hp)
  | failed h1 hst hcall h2 hst2 hq => exact .failed h1 hst hcall h2 hst2 (hq.trans hp)

/-- Where the flag is up from the start, nothing that happens is the doing of the execution. -/
theorem Goes.of_stopped {o : Outcome} {u' : ScriptUnit} (hg : u.Goes c name args between seat h k o u')
    (hst : h.isStopped c.token = true) : o = {} ∧ u' = u ∧ Host.Passes between h k := by
  -- the flag stays up to the first look
  cases hg with
  | early h1 _ hq => exact ⟨rfl, rfl, h1.trans hq⟩
  | value h1 hdown | stopped h1 hdown | failed h1 hdown =>
    rw [Host.isStopped_of_passes h1 hst] at hdown
    cases hdown

theorem Goes.failure {o : Outcome} {u' : ScriptUnit} (hg : u.Goes c name args between seat h k o u') {text : String}
    (ht : o.failure = some text) : ∃ x engine dialogue,
      ((u.engine.setToken c.token).call name args).Ends dialogue (.error x, engine) ∧
        text = (u.scriptError false x).message := by
  cases hg with
  | early | value | stopped => cases ht
  | failed _ _ hcall _ _ _ =>
    cases ht
    obtain ⟨dialogue, hends⟩ := hcall.ends
    exact ⟨_, _, dialogue, hends, rfl⟩

/-- However a unit is executed, and whenever it is asked to stop meanwhile: where the flag is up before it
begins, it does nothing and leaves neither a value nor a failure; a call that fails leaves neither where the
flag is up at the look behind it, and a failure where the flag is down; a value stays a value. The failure is
the text of the error of the call: that of a missing function where there is none, and otherwise it reads so
only where an argument or the result could not be converted, and the name of the unit with the text of that
error behind it spells just that. The engine has given the token back. -/
theorem stopped_unit_never_fails (hu : u.Made) {ending : Ending}
    (hc : Host.Course between (Activity.step seat) h (.going (u.toExecutable c name args)) k (.done ending)) :
    ∃ u', u.Goes c name args between seat h k ending.outcome u' ∧
      (∃ said r, (u.execute c name args).Ends said (r, u')) ∧ u'.engine.machine.token = none ∧
      (h.isStopped c.token = true → ending.outcome = {} ∧ u' = u ∧ Host.Passes between h k) ∧
      ∀ text, ending.outcome.failure = some text → ∃ x engine dialogue,
        ((u.engine.setToken c.token).call name args).Ends dialogue (.error x, engine) ∧
          text = (u.scriptError false x).message ∧ (u.engine.function? name = none → text = unknown name) ∧
          (text = unknown name → u.engine.function? name = none ∨
            ∃ said, x = .conversion said ∧ text = s!"{u.name}: {(EngineError.conversion said).message}") := by
  obtain ⟨k1, ⟨r, u'⟩, hx, hc⟩ := Host.Course.of_bind hc
  have hg : u.Goes c name args between seat h k ending.outcome u' := by
    have hx := goes_of_execute (hx.move rfl)
    cases r with
    | ok v =>
      obtain ⟨rfl, hp⟩ := hc.of_done
      exact hx.later hp
    | error e =>
      obtain ⟨rfl, hp⟩ := hc.of_done
      exact hx.later hp
  obtain ⟨said, hends⟩ := hx.ends
  refine ⟨u', hg, ⟨said, r, hends⟩, token_of_execute hu.token hends, hg.of_stopped, fun text ht => ?_⟩
  obtain ⟨x, engine, dialogue, hcall, rfl⟩ := hg.failure ht
  obtain ⟨hmissing, hsame⟩ := message_eq_unknown (Engine.callFails_of_ends hcall).of_setToken
  refine ⟨x, engine, dialogue, hcall, rfl, hmissing, fun htext => (hsame htext).imp id ?_⟩
  rintro ⟨said, rfl⟩
  exact ⟨said, rfl, rfl⟩

end

/-! ## Executions -/

/-- A host with one stop token, whose flag is down. -/
def calm : Host := { Host.plain with tokens := [{}] }

def caller : Seat := { self := 0 }

def job : Context := { threadName := "job", token := 0 }

/-- The unit of a source, if it can be made on that host, and how an execution of it ends there. -/
def tried (s : Source) (name : String) : Option (ScriptUnit × Host × Ending) := do
  let (_, unit) ← Host.carriedOut caller 100 calm (compile? [] 0 [s])
  let u ← unit
  let (k, ending) ← Host.carriedOut caller 100 calm (u.toExecutable job name [])
  return (u, k, ending)

theorem of_tried {s : Source} {u : ScriptUnit} {k : Host} {ending : Ending} (h : tried s name = some (u, k, ending)) :
    u.Made ∧ Host.Course Host.Event.Unasked (Activity.step caller) calm (.going (u.toExecutable job name [])) k
      (.done ending) := by
  unfold tried at h
  simp only [Option.bind_eq_bind, Option.bind_eq_some_iff, Prod.exists] at h
  obtain ⟨_, unit, hmade, u', rfl, k', ending', hrun, h⟩ := h
  cases h
  obtain ⟨said, hends⟩ := (Host.course_of_carriedOut hmade).ahead rfl
  exact ⟨.compiled hends, Host.course_of_carriedOut hrun⟩

/-- A script with one function. -/
def plainSource : Source where
  id := "greet"
  text := "this.greet = () => 'hello';"

theorem absent_unknown : ∃ (u : ScriptUnit) (k : Host) (ending : Ending) (u' : ScriptUnit), u.Made ∧
    ending.outcome.failure = some "Unknown function: absent" ∧
    u.engine.function? "greet" ≠ none ∧ u.engine.function? "absent" = none ∧ u'.engine.machine.token = none ∧
    u.Goes job "absent" [] Host.Event.Unasked caller calm k ending.outcome u' := by
  have hp : (tried plainSource "absent").any (fun x =>
      decide (x.2.2.outcome.failure = some "Unknown function: absent" ∧ x.1.engine.function? "greet" ≠ none ∧
        x.1.name = "greet")) = true := by
    decide +kernel
  obtain ⟨⟨u, k, ending⟩, ht, hp⟩ := (Option.any_eq_true _ _).1 hp
  obtain ⟨hfailure, hgreet, hname⟩ := of_decide_eq_true hp
  have hname : u.name = "greet" := hname
  obtain ⟨hmade, hc⟩ := of_tried ht
  obtain ⟨u', hgoes, -, htoken, -, htext⟩ := stopped_unit_never_fails hmade hc
  obtain ⟨x, -, -, -, -, -, hunknown⟩ := htext _ hfailure
  -- what is said of a value that is not converted begins with the name of the unit
  have hother : ¬ ∃ said, x = .conversion said ∧
      "Unknown function: absent" = s!"{u.name}: {(EngineError.conversion said).message}" := by
    rintro ⟨said, -, htext⟩
    have htext : "Unknown function: absent" = u.name ++ ": " ++ (EngineError.conversion said).message := htext
    have hfirst := congrArg (fun s => s.toList.head?) htext
    simp [hname] at hfirst
  exact ⟨u, k, ending, u', hmade, hfailure, hgreet, (hunknown rfl).resolve_right hother, htoken, hgoes⟩

/-- A script with a function whose value is an array in itself, and whose name is what is said of such a
value. -/
def oddSource : Source where
  id := "Unknown function"
  text := "let loop = []; loop.push(loop);" ++
    "this['Type conversion error: Exception generated by QuickJS'] = () => loop;"

def oddName : String := "Type conversion error: Exception generated by QuickJS"

/-- Its failure is that of a missing function, though it is there. -/
theorem found_unknown : ∃ (u : ScriptUnit) (k : Host) (ending : Ending), u.Made ∧
    Host.Course Host.Event.Unasked (Activity.step caller) calm (.going (u.toExecutable job oddName [])) k (.done ending) ∧
    ending.outcome.failure = some (unknown oddName) ∧ u.engine.function? oddName ≠ none := by
  have hp : (tried oddSource oddName).any (fun x =>
      decide (x.2.2.outcome.failure = some (unknown oddName) ∧ x.1.engine.function? oddName ≠ none)) = true := by
    decide +kernel
  obtain ⟨⟨u, k, ending⟩, ht, hp⟩ := (Option.any_eq_true _ _).1 hp
  obtain ⟨hfailure, hfound⟩ := of_decide_eq_true hp
  obtain ⟨hmade, hc⟩ := of_tried ht
  exact ⟨u, k, ending, hmade, hc, hfailure, hfound⟩

end ScriptUnit

end Scripting
