/-
What one move of a thread can do, said once. A move of a fulfilment is one of fourteen; of those only
the entry and the removal of the builder touch who builds, only the entry of a new execution touches
what is registered, and only that and the start touch the executions. All other threads leave the
registry alone, and a body changes an execution only when it ends.
-/
import Scripting.Proofs.Host.Ages

namespace Scripting

/-! ## Fulfilments -/

namespace Fulfilment

/-- The thread name that is asked for. -/
abbrev name (f : Fulfilment) : String := f.order.threadName

/-- Between becoming the builder and ceasing to be it. -/
def Phase.holdsLock : Phase → Prop
  | .lookUp | .wantBuild | .start _ | .done _ => False
  | _ => True

/-- Behind the second look, which found nothing that runs, and before what is built is registered. -/
def Phase.isBuilding : Phase → Prop
  | .announce | .resolve _ | .compile .. | .retract _ | .register _ => True
  | _ => False

/-- Between entering a stop token for the build and taking it out again. -/
def Phase.isAnnounced : Phase → Prop
  | .resolve _ | .compile .. | .retract _ => True
  | _ => False

/-- A fulfilment is about to start an execution, perhaps after letting others build. -/
def Starts (f : Fulfilment) (id : ExecutionId) : Prop :=
  f.phase = .release (.ok id) ∨ f.phase = .start id

/-- The moves of a fulfilment: the host that each leaves, and the phase that it leads to. -/
inductive Moves (h : Host) (f : Fulfilment) : Host → Phase → Prop
  | found {id : ExecutionId} : f.phase = .lookUp → h.live? f.name = some id → Moves h f h (f.found id)
  | missed : f.phase = .lookUp → h.live? f.name = none → Moves h f h .wantBuild
  | lock : f.phase = .wantBuild → Assoc.find? f.name h.registry.builders = none →
      Moves h f { h with registry := { h.registry with
        builders := Assoc.insert f.name f.self h.registry.builders } } .lookAgain
  | foundAgain {id : ExecutionId} : f.phase = .lookAgain → h.live? f.name = some id →
      Moves h f h (.release (.ok id))
  | missedAgain : f.phase = .lookAgain → h.live? f.name = none → Moves h f h .announce
  | announce : f.phase = .announce →
      Moves h f { h.newToken.2 with registry := { h.registry with
        compiling := Assoc.insert f.name h.tokens.length h.registry.compiling } } (.resolve h.tokens.length)
  | unresolved {token : TokenId} {e : ResolutionError} : f.phase = .resolve token →
      h.environment.resolve f.order.sourceId = .error e ∨
        (h.environment.resolve f.order.sourceId = .ok [] ∧ e = .notFound f.order.sourceId) →
      Moves h f h (.retract (.error e))
  | resolved {token : TokenId} {sources : List Source} : f.phase = .resolve token →
      h.environment.resolve f.order.sourceId = .ok sources → sources ≠ [] →
      Moves h f h (.compile token (.going (h.environment.compile token sources)))
  | compiled {token : TokenId} {unit? : Option ExecutableUnit} : f.phase = .compile token (.done unit?) →
      Moves h f h (.retract (unit?.elim (.error (.compileFailed f.order.sourceId)) .ok))
  | compiling {token : TokenId} {work work' : Activity (Option ExecutableUnit)} {k : Host} :
      f.phase = .compile token work → work.step { self := f.self } h = some (k, work') →
      Moves h f k (.compile token work')
  | retract {result : Except ResolutionError ExecutableUnit} : f.phase = .retract result →
      Moves h f { h with registry := { h.registry with
        compiling := Assoc.erase f.name h.registry.compiling } }
        (match result with
          | .ok unit => .register unit
          | .error e => .release (.error e))
  | register {unit : ExecutableUnit} : f.phase = .register unit →
      Moves h f (h.registerExecution f.order unit).2 (.release (.ok h.executions.length))
  | release {result : Except ResolutionError ExecutionId} : f.phase = .release result →
      Moves h f { h with registry := { h.registry with
        builders := Assoc.erase f.name h.registry.builders } }
        (match result with
          | .ok id => f.found id
          | .error e => .done (.error (.resolution e)))
  | start {id : ExecutionId} : f.phase = .start id →
      Moves h f (h.start id).2
        (match (h.start id).1 with
          | .ok _ => .done (.ok id)
          | .error e => .done (.error (.spawn e)))

theorem moves_of_step {h k : Host} {f f' : Fulfilment} (hs : f.step h = some (k, f')) :
    Moves h f k f'.phase ∧ f' = { f with phase := f'.phase } := by
  unfold step at hs
  cases hp : f.phase with
  | lookUp =>
    simp only [hp] at hs
    split at hs <;> rename_i hl <;> cases hs
    · exact ⟨.found hp hl, rfl⟩
    · exact ⟨.missed hp hl, rfl⟩
  | wantBuild =>
    simp only [hp] at hs
    split at hs
    · cases hs
    · rename_i hc
      cases hs
      exact ⟨.lock hp (Assoc.find?_eq_none_of_contains hc), rfl⟩
  | lookAgain =>
    simp only [hp] at hs
    split at hs <;> rename_i hl <;> cases hs
    · exact ⟨.foundAgain hp hl, rfl⟩
    · exact ⟨.missedAgain hp hl, rfl⟩
  | announce =>
    simp only [hp] at hs
    cases hs
    exact ⟨.announce hp, rfl⟩
  | resolve token =>
    simp only [hp] at hs
    split at hs <;> cases hs
    · rename_i e he
      exact ⟨.unresolved hp (.inl he), rfl⟩
    · rename_i he
      exact ⟨.unresolved hp (.inr ⟨he, rfl⟩), rfl⟩
    · rename_i sources hne he
      exact ⟨.resolved hp he hne, rfl⟩
  | compile token work =>
    simp only [hp] at hs
    split at hs
    · rename_i unit?
      cases unit? <;> cases hs
      · exact ⟨.compiled hp, rfl⟩
      · exact ⟨.compiled hp, rfl⟩
    · obtain ⟨⟨k', work'⟩, hw, hs⟩ := Option.map_eq_some_iff.1 hs
      cases hs
      exact ⟨.compiling hp hw, rfl⟩
  | retract result =>
    simp only [hp] at hs
    cases result <;> cases hs
    · exact ⟨.retract hp, rfl⟩
    · exact ⟨.retract hp, rfl⟩
  | register unit =>
    simp only [hp] at hs
    cases hs
    exact ⟨.register hp, rfl⟩
  | release result =>
    simp only [hp] at hs
    cases result <;> cases hs
    · exact ⟨.release hp, rfl⟩
    · exact ⟨.release hp, rfl⟩
  | start id =>
    -- whether a thread could be had shows in the phase and in the host alike
    simp only [hp] at hs
    have hm := Moves.start (h := h) hp
    revert hm hs
    obtain ⟨r, k'⟩ := h.start id
    intro hs hm
    cases r <;> cases hs <;> exact ⟨hm, rfl⟩
  | done r =>
    simp only [hp] at hs
    cases hs

theorem not_holdsLock_found (f : Fulfilment) (id : ExecutionId) : ¬ (f.found id).holdsLock := by
  unfold found
  split <;> exact not_false

theorem not_isAnnounced_found (f : Fulfilment) (id : ExecutionId) : ¬ (f.found id).isAnnounced := by
  unfold found
  split <;> exact not_false

theorem not_isBuilding_found (f : Fulfilment) (id : ExecutionId) : ¬ (f.found id).isBuilding := by
  unfold found
  split <;> exact not_false

variable {h k : Host} {f : Fulfilment} {p : Phase}

/-- A move keeps every execution under its number. -/
theorem Moves.ages (hm : Moves h f k p) : h.Ages k := by
  cases hm with
  | compiling _ hw => exact (Activity.quiet_step hw).ages
  | register => exact Host.ages_registerExecution h _ _
  | start => exact Host.ages_start h _
  | _ => exact Host.ages_of_eq rfl

/-- What a move does to the executions and to the entries of the registry. -/
theorem Moves.record (hm : Moves h f k p) :
    (k.executions = h.executions ∧ k.registry.entries = h.registry.entries) ∨
    (∃ unit, f.phase = .register unit ∧ k = (h.registerExecution f.order unit).2 ∧
      p = .release (.ok h.executions.length)) ∨
    (∃ id, f.phase = .start id ∧ k = (h.start id).2 ∧ ¬ p.isBuilding) := by
  cases hm with
  | register hp => exact .inr (.inl ⟨_, hp, rfl, rfl⟩)
  | start hp =>
    refine .inr (.inr ⟨_, hp, rfl, ?_⟩)
    cases (h.start _).1 <;> exact id
  | compiling _ hw =>
    have q := Activity.quiet_step hw
    exact .inl ⟨q.executions, by rw [q.registry]⟩
  | _ => exact .inl ⟨rfl, rfl⟩

/-- What a move does to the table of builders. -/
theorem Moves.builders (hm : Moves h f k p) :
    (k.registry.builders = h.registry.builders ∧ (p.holdsLock ↔ f.phase.holdsLock)) ∨
    (f.phase = .wantBuild ∧ Assoc.find? f.name h.registry.builders = none ∧ p.holdsLock ∧
      k.registry.builders = Assoc.insert f.name f.self h.registry.builders) ∨
    (f.phase.holdsLock ∧ k.registry.builders = Assoc.erase f.name h.registry.builders ∧ ¬ p.holdsLock) := by
  cases hm with
  | found hp _ => exact .inl ⟨rfl, by rw [hp]; exact iff_of_false (not_holdsLock_found f _) id⟩
  | lock hp hn => exact .inr (.inl ⟨hp, hn, trivial, rfl⟩)
  | compiling hp hw =>
    exact .inl ⟨by rw [(Activity.quiet_step hw).registry], by rw [hp]; exact Iff.rfl⟩
  | start hp =>
    refine .inl ⟨by rw [Host.start_registry], ?_⟩
    rw [hp]
    cases (h.start _).1 <;> exact Iff.rfl
  | @release result hp =>
    refine .inr (.inr ⟨by rw [hp]; trivial, rfl, fun hl => ?_⟩)
    cases result with
    | ok id => exact not_holdsLock_found f id hl
    | error e => cases hl
  | @retract result hp =>
    refine .inl ⟨rfl, ?_⟩
    rw [hp]
    cases result <;> exact Iff.rfl
  | missed hp _ | foundAgain hp _ | missedAgain hp _ | announce hp | unresolved hp _ | resolved hp _ _ | compiled hp
  | register hp => exact .inl ⟨rfl, by rw [hp]; exact Iff.rfl⟩

/-- What a move does to the table of the tokens of builds. -/
theorem Moves.announced (hm : Moves h f k p) :
    (k.registry.compiling = h.registry.compiling ∧ (p.isAnnounced ↔ f.phase.isAnnounced)) ∨
    (f.phase = .announce ∧ p.isAnnounced ∧
      k.registry.compiling = Assoc.insert f.name h.tokens.length h.registry.compiling) ∨
    (f.phase.isAnnounced ∧ k.registry.compiling = Assoc.erase f.name h.registry.compiling ∧
      ¬ p.isAnnounced) := by
  cases hm with
  | announce hp => exact .inr (.inl ⟨hp, trivial, rfl⟩)
  | @retract result hp =>
    refine .inr (.inr ⟨by rw [hp]; trivial, rfl, ?_⟩)
    cases result <;> exact id
  | compiling hp hw => exact .inl ⟨by rw [(Activity.quiet_step hw).registry], by rw [hp]; exact Iff.rfl⟩
  | found hp _ => exact .inl ⟨rfl, by rw [hp]; exact iff_of_false (not_isAnnounced_found f _) id⟩
  | start hp =>
    refine .inl ⟨by rw [Host.start_registry], ?_⟩
    rw [hp]
    cases (h.start _).1 <;> exact Iff.rfl
  | @release result hp =>
    refine .inl ⟨rfl, ?_⟩
    rw [hp]
    cases result with
    | ok id => exact iff_of_false (not_isAnnounced_found f id) (fun hn => hn)
    | error e => exact Iff.rfl
  | missed hp _ | lock hp _ | foundAgain hp _ | missedAgain hp _ | unresolved hp _ | resolved hp _ _
  | compiled hp | register hp => exact .inl ⟨rfl, by rw [hp]; exact Iff.rfl⟩

theorem Moves.tokens (hm : Moves h f k p) : h.tokens.length ≤ k.tokens.length := by
  cases hm with
  | compiling _ hw => exact Nat.le_of_eq (Activity.quiet_step hw).tokens.symm
  | start => exact Nat.le_of_eq (by rw [Host.start_tokens])
  | announce | register => simp [Host.newToken, Host.registerExecution]
  | _ => exact Nat.le_refl _

/-- A fulfilment comes to build by finding nothing that runs, and then goes on building until it
registers or gives up. -/
theorem Moves.isBuilding (hm : Moves h f k p) (hb : p.isBuilding) :
    f.phase.isBuilding ∨ (f.phase = .lookAgain ∧ h.live? f.name = none ∧ k = h) := by
  cases hm with
  | missedAgain hp hl => exact .inr ⟨hp, hl, rfl⟩
  | announce hp | unresolved hp _ | resolved hp _ _ | compiled hp | compiling hp _ | retract hp =>
    exact .inl (by rw [hp]; trivial)
  | found => exact absurd hb (not_isBuilding_found f _)
  | @release result hp =>
    cases result with
    | ok id => exact absurd hb (not_isBuilding_found f id)
    | error e => cases hb
  | start hp => cases hr : (h.start _).1 <;> rw [hr] at hb <;> cases hb
  | missed | lock | foundAgain | register => cases hb

/-- A move brings no new fulfilment about. -/
theorem Moves.threads (hm : Moves h f k p) :
    ∃ new, k.threads = h.threads ++ new ∧ ∀ t ∈ new, ∀ g, t ≠ .fulfilment g := by
  cases hm with
  | compiling _ hw =>
    obtain ⟨new, hn, hs⟩ := (Activity.quiet_step hw).threads
    exact ⟨new, hn, fun t ht g hg => by have := hs t ht; rw [hg] at this; cases this⟩
  | @start id hp =>
    rcases Host.start_cases h id with ⟨-, hs⟩ | ⟨e, -, -, ⟨text, -, hs⟩ | ⟨-, hs⟩⟩ <;> rw [hs]
    · exact ⟨[], by simp, by simp⟩
    · exact ⟨[], by simp [Host.setExecution], by simp⟩
    · exact ⟨[_], rfl, fun t ht g hg => by rw [List.mem_singleton] at ht; rw [ht] at hg; cases hg⟩
  | _ => exact ⟨[], by simp [Host.newToken, Host.registerExecution], by simp⟩

/-- A fulfilment that is about to start an execution lets the others build, or starts it. -/
theorem Moves.starts (hm : Moves h f k p) {id : ExecutionId} (hs : f.Starts id) (hf : f.starts = true) :
    p = .start id ∨ k = (h.start id).2 := by
  cases hm with
  | release hp =>
    rcases hs with hs | hs <;> rw [hs] at hp <;> cases hp
    exact .inl (if_pos hf)
  | start hp =>
    rcases hs with hs | hs <;> rw [hs] at hp <;> cases hp
    exact .inr rfl
  | found hp _ | missed hp _ | lock hp _ | foundAgain hp _ | missedAgain hp _ | announce hp | unresolved hp _
  | resolved hp _ _ | compiled hp | compiling hp _ | retract hp | register hp =>
    rcases hs with hs | hs <;> rw [hs] at hp <;> cases hp

/-- How a fulfilment comes to be about to start an execution: it found it, made it or let others build. -/
theorem Moves.starts_after (hm : Moves h f k p) {id : ExecutionId}
    (hs : ({ f with phase := p } : Fulfilment).Starts id) :
    (h.live? f.name = some id ∧ k = h) ∨
    (∃ unit, k = (h.registerExecution f.order unit).2 ∧ id = h.executions.length) ∨
    (f.phase = .release (.ok id) ∧ k.executions = h.executions ∧
      k.registry.entries = h.registry.entries) := by
  -- what is found is started only if the order says so
  have eq_of_found {j : ExecutionId} (hj : f.found j = .release (.ok id) ∨ f.found j = .start id) : j = id := by
    rcases hj with hj | hj <;> unfold Fulfilment.found at hj <;> split at hj <;> cases hj
    rfl
  cases hm with
  | found _ hl => obtain rfl := eq_of_found hs; exact .inl ⟨hl, rfl⟩
  | foundAgain _ hl => rcases hs with hs | hs <;> cases hs; exact .inl ⟨hl, rfl⟩
  | register hp => rcases hs with hs | hs <;> cases hs; exact .inr (.inl ⟨_, rfl, rfl⟩)
  | @release result hp =>
    cases result with
    | ok j => obtain rfl := eq_of_found hs; exact .inr (.inr ⟨hp, rfl, rfl⟩)
    | error e => rcases hs with hs | hs <;> cases hs
  | @retract result _ => cases result <;> rcases hs with hs | hs <;> cases hs
  | start _ =>
    unfold Starts at hs
    cases hr : (h.start _).1 <;> rw [hr] at hs <;> rcases hs with hs | hs <;> cases hs
  | missed | lock | missedAgain | announce | unresolved | resolved | compiled | compiling =>
    rcases hs with hs | hs <;> cases hs

/-- A fulfilment that has no move is through, waits in its compiler, or waits for whoever builds for its
name. -/
theorem waits_of_step (hs : f.step h = none) :
    (∃ r, f.phase = .done r) ∨
    (∃ token work, f.phase = .compile token work ∧ (∀ unit?, work ≠ .done unit?) ∧
      work.step { self := f.self } h = none) ∨
    (f.phase = .wantBuild ∧ Assoc.contains f.name h.registry.builders = true) := by
  unfold step at hs
  cases hp : f.phase with
  | done r => exact .inl ⟨r, rfl⟩
  | wantBuild =>
    simp only [hp] at hs
    split at hs
    · rename_i hc
      exact .inr (.inr ⟨rfl, hc⟩)
    · cases hs
  | compile token work =>
    simp only [hp] at hs
    split at hs
    · split at hs <;> cases hs
    · rename_i hn
      exact .inr (.inl ⟨token, work, rfl, fun unit? he => hn unit? he, Option.map_eq_none_iff.1 hs⟩)
  | lookUp | lookAgain | resolve | start =>
    simp only [hp] at hs
    split at hs <;> cases hs
  | announce | register =>
    simp only [hp] at hs
    cases hs
  | retract result | release result =>
    simp only [hp] at hs
    cases result <;> cases hs

end Fulfilment

/-! ## Threads -/

/-- The moves of a thread. -/
theorem HostThread.step_cases {i : ThreadId} {h k : Host} {t t' : HostThread}
    (hs : t.step i h = some (k, t')) :
    (∃ id ending, t = .body id (.done ending) ∧ k = h.finish id ending ∧ t' = .idle) ∨
    (∃ id work work', t = .body id work ∧ t' = .body id work' ∧ h.Quiet k) ∨
    (∃ f p, t = .fulfilment f ∧ t' = .fulfilment { f with phase := p } ∧ f.Moves h k p) ∨
    (∃ s s', t = .stopAll s ∧ t' = .stopAll s' ∧ s.step h = some (k, s')) ∨
    (∃ r s s', t = .stream r s ∧ t' = .stream r s' ∧ h.Quiet k) := by
  unfold step at hs
  split at hs
  · cases hs
    exact .inl ⟨_, _, rfl, rfl, rfl⟩
  · obtain ⟨⟨k', work'⟩, hw, hs⟩ := Option.map_eq_some_iff.1 hs
    cases hs
    exact .inr (.inl ⟨_, _, _, rfl, rfl, Activity.quiet_step hw⟩)
  · obtain ⟨⟨k', f'⟩, hf, hs⟩ := Option.map_eq_some_iff.1 hs
    cases hs
    obtain ⟨hm, he⟩ := Fulfilment.moves_of_step hf
    exact .inr (.inr (.inl ⟨_, _, rfl, congrArg HostThread.fulfilment he, hm⟩))
  · obtain ⟨⟨k', s'⟩, hf, hs⟩ := Option.map_eq_some_iff.1 hs
    cases hs
    exact .inr (.inr (.inr (.inl ⟨_, _, rfl, rfl, hf⟩)))
  · split at hs
    · simp only at hs
      split at hs <;> cases hs
      exact .inr (.inr (.inr (.inr ⟨_, _, _, rfl, rfl, Host.quiet_foldl _ (Host.quiet_applyEffect _ _) _ _⟩)))
    · cases hs
  · cases hs

theorem Host.step_eq_some {i : ThreadId} {h h' : Host} (hs : h.step i = some h') :
    ∃ t k t', h.threads[i]? = some t ∧ t.step i h = some (k, t') ∧
      h' = { k with threads := k.threads.set i t' } := by
  unfold step at hs
  obtain ⟨t, ht, hs⟩ := Option.bind_eq_some_iff.1 hs
  obtain ⟨⟨k, t'⟩, hk, hs⟩ := Option.map_eq_some_iff.1 hs
  exact ⟨t, k, t', ht, hk, hs.symm⟩

end Scripting
