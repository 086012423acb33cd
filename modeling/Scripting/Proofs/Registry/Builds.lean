/-
Who builds for a name, and what stands registered when nobody does. The lock of a name comes about with
the first caller who wants it and is never thrown away, so who holds it is all there is to it, and that is
what the table of builders says. Whatever callers come, and however their moves fall between one another, a
name has one builder; its token in the table of builds is the one that this builder has entered; and when
nobody builds for a name, what is registered under it is what the last one who built has made. Nobody waits
for the builder of another name.

A token or an execution is somebody's by what that caller did, so the deeds of a run are kept beside it
(`Worked`). What holds on the way is `Kept`.
-/
import Scripting.Proofs.Registry.Tokens

namespace Scripting

/-! ## Deeds -/

/-- What a caller does for the name that it builds for. -/
inductive Deed where
  /-- It enters a token for the build. -/
  | entered (i : ThreadId) (name : String) (token : TokenId)
  /-- It has a unit from the compiler. -/
  | built (i : ThreadId) (name : String) (unit : ExecutableUnit)
  /-- It registers a new execution. -/
  | registered (i : ThreadId) (id : ExecutionId)

namespace Deed

/-- Who last built for a name, and which unit; the latest deed stands first. -/
def lastBuilt? (n : String) (ds : List Deed) : Option (ThreadId × ExecutableUnit) :=
  ds.findSome? fun
    | .built i m unit => if m = n then some (i, unit) else none
    | _ => none

theorem lastBuilt?_append (n : String) (new ds : List Deed) :
    lastBuilt? n (new ++ ds) = (lastBuilt? n new).or (lastBuilt? n ds) :=
  List.findSome?_append

theorem lastBuilt?_append_of_none {n : String} {new : List Deed} (hn : lastBuilt? n new = none) (ds : List Deed) :
    lastBuilt? n (new ++ ds) = lastBuilt? n ds := by
  rw [lastBuilt?_append, hn, Option.none_or]

theorem lastBuilt?_built (n m : String) (i : ThreadId) (unit : ExecutableUnit) :
    lastBuilt? n [.built i m unit] = if m = n then some (i, unit) else none := by
  unfold lastBuilt?
  rw [List.findSome?_singleton]

end Deed

open Deed

namespace Fulfilment

/-- What the next move does, when a thread makes it. -/
def deeds (h : Host) (i : ThreadId) (f : Fulfilment) : List Deed :=
  match f.phase with
  | .announce => [.entered i f.name h.tokens.length]
  | .compile _ (.done (some unit)) => [.built i f.name unit]
  | .register _ => [.registered i h.executions.length]
  | _ => []

/-- The unit that is made and not yet registered. -/
def Phase.built? : Phase → Option ExecutableUnit
  | .retract (.ok unit) | .register unit => some unit
  | _ => none

/-- How far an order has come. -/
def Phase.rank : Phase → Nat
  | .lookUp => 0
  | .wantBuild => 1
  | .lookAgain => 2
  | .announce => 3
  | .resolve _ => 4
  | .compile .. => 5
  | .retract _ => 6
  | .register _ => 7
  | .release _ => 8
  | .start _ => 9
  | .done _ => 10

theorem Phase.holdsLock_of_built? {p : Phase} {unit : ExecutableUnit} (h : p.built? = some unit) : p.holdsLock := by
  unfold built? at h
  split at h <;> trivial

theorem built?_found (f : Fulfilment) (id : ExecutionId) : (f.found id).built? = none := by
  unfold found
  split <;> rfl

theorem rank_found (f : Fulfilment) (id : ExecutionId) : 9 ≤ (f.found id).rank := by
  unfold found
  split <;> simp [Phase.rank]

section

variable {h k : Host} {f : Fulfilment} {p : Phase}

/-- An order never goes back to an earlier phase. -/
theorem Moves.rank_le (hm : Moves h f k p) : f.phase.rank ≤ p.rank := by
  cases hm with
  | @release result hp =>
    rw [hp]
    cases result with
    | ok id => exact Nat.le_of_succ_le (rank_found f id)
    | error e => exact Nat.le_add_right 8 2
  | @retract result hp => rw [hp]; cases result <;> simp [Phase.rank]
  | start hp => rw [hp]; cases (h.start _).1 <;> simp [Phase.rank]
  | found hp _ | missed hp _ | lock hp _ | foundAgain hp _ | missedAgain hp _ | announce hp | unresolved hp _
  | resolved hp _ _ | compiled hp | compiling hp _ | register hp => rw [hp]; simp [Phase.rank]

/-- What a move does to what is built and what is registered. -/
theorem Moves.builds (hm : Moves h f k p) (i : ThreadId) :
    (p.built? = f.phase.built? ∧ k.registry.entries = h.registry.entries ∧
      ∀ n, lastBuilt? n (f.deeds h i) = none) ∨
    (∃ unit, f.phase.holdsLock ∧ p.built? = some unit ∧ k.registry.entries = h.registry.entries ∧
      f.deeds h i = [.built i f.name unit]) ∨
    (∃ unit, f.phase = .register unit ∧ p.built? = none ∧ k = (h.registerExecution f.order unit).2 ∧
      f.deeds h i = [.registered i h.executions.length]) := by
  cases hm with
  | @compiled _ unit? hp =>
    unfold deeds
    rw [hp]
    cases unit? with
    | none => exact .inl ⟨rfl, rfl, fun _ => rfl⟩
    | some unit => exact .inr (.inl ⟨unit, trivial, rfl, rfl, rfl⟩)
  | @compiling _ work _ _ hp hw =>
    refine .inl ⟨by rw [hp]; rfl, by rw [(Activity.quiet_step hw).registry], fun n => ?_⟩
    unfold deeds
    rw [hp]
    cases work with
    | done => cases hw
    | going | polling => rfl
  | @register unit hp =>
    unfold deeds
    rw [hp]
    exact .inr (.inr ⟨unit, rfl, rfl, rfl, rfl⟩)
  | @retract result hp =>
    unfold deeds
    rw [hp]
    cases result <;> exact .inl ⟨rfl, rfl, fun _ => rfl⟩
  | @release result hp =>
    unfold deeds
    rw [hp]
    refine .inl ⟨?_, rfl, fun _ => rfl⟩
    cases result with
    | ok id => exact built?_found f id
    | error e => rfl
  | found hp _ =>
    unfold deeds
    rw [hp]
    exact .inl ⟨built?_found f _, rfl, fun _ => rfl⟩
  | start hp =>
    unfold deeds
    rw [hp]
    refine .inl ⟨?_, by rw [Host.start_registry], fun _ => rfl⟩
    cases (h.start _).1 <;> rfl
  | missed hp _ | lock hp _ | foundAgain hp _ | missedAgain hp _ | announce hp | unresolved hp _ | resolved hp _ _ =>
    unfold deeds
    rw [hp]
    exact .inl ⟨rfl, rfl, fun _ => rfl⟩

end

end Fulfilment

namespace Host

/-- What an event does for a name. -/
def deeds (h : Host) : Event → List Deed
  | .move i =>
    match h.threads[i]? with
    | some (.fulfilment f) => f.deeds h i
    | _ => []
  | _ => []

/-- The hosts that events lead to, with what the callers did on the way, the latest first. -/
inductive Worked (h0 : Host) : List Deed → Host → Prop
  | start : Worked h0 [] h0
  | next {ds : List Deed} {h k : Host} {ev : Event} : Worked h0 ds h → h.after? ev = some k →
      Worked h0 (h.deeds ev ++ ds) k

/-- A thread is between taking and releasing the lock of a name. -/
def Holds (h : Host) (i : ThreadId) (n : String) : Prop :=
  ∃ f, h.threads[i]? = some (.fulfilment f) ∧ f.name = n ∧ f.phase.holdsLock

/-- A thread resolves or compiles for a name. -/
def Prepares (h : Host) (i : ThreadId) (n : String) : Prop :=
  ∃ f, h.threads[i]? = some (.fulfilment f) ∧ f.name = n ∧ f.phase.isAnnounced

/-- What is registered under a name was registered by the last caller who built for it, of the unit that
this one built; nothing is, if nobody has. -/
structure Standing (h : Host) (ds : List Deed) (n : String) : Prop where
  unbuilt : lastBuilt? n ds = none → h.registered? n = none
  built : ∀ i unit, lastBuilt? n ds = some (i, unit) → ∃ id e, .registered i id ∈ ds ∧
    h.registered? n = some id ∧ h.execution? id = some e ∧ e.threadName = n ∧ e.unit = unit

/-! ## One event -/

section

variable {h h' k : Host} {ev : Event} {i j : ThreadId} {f g : Fulfilment} {p : Fulfilment.Phase}

theorem deeds_move (hi : h.threads[i]? = some (.fulfilment f)) : h.deeds (.move i) = f.deeds h i := by
  unfold deeds
  simp only [hi]

theorem mem_deeds {d : Deed} (hd : d ∈ h.deeds ev) :
    ∃ i f, ev = .move i ∧ h.threads[i]? = some (.fulfilment f) ∧ d ∈ f.deeds h i := by
  unfold deeds at hd
  split at hd
  · split at hd
    · rename_i i _ f hi
      exact ⟨i, f, rfl, hi, hd⟩
    · cases hd
  · cases hd

theorem entered_mem_deeds {n : String} {t : TokenId} (hd : .entered i n t ∈ h.deeds ev) :
    ∃ f, ev = .move i ∧ h.threads[i]? = some (.fulfilment f) ∧ f.phase = .announce ∧ n = f.name ∧
      t = h.tokens.length := by
  obtain ⟨j, f, rfl, hj, hd⟩ := mem_deeds hd
  unfold Fulfilment.deeds at hd
  split at hd
  · rename_i hp
    cases List.mem_singleton.1 hd
    exact ⟨f, rfl, hj, hp, rfl, rfl⟩
  · cases List.mem_singleton.1 hd
  · cases List.mem_singleton.1 hd
  · cases hd

theorem registered_mem_deeds {id : ExecutionId} (hd : .registered i id ∈ h.deeds ev) :
    ∃ f unit, ev = .move i ∧ h.threads[i]? = some (.fulfilment f) ∧ f.phase = .register unit ∧
      id = h.executions.length := by
  obtain ⟨j, f, rfl, hj, hd⟩ := mem_deeds hd
  unfold Fulfilment.deeds at hd
  split at hd
  · cases List.mem_singleton.1 hd
  · cases List.mem_singleton.1 hd
  · rename_i unit hp
    cases List.mem_singleton.1 hd
    exact ⟨f, unit, rfl, hj, hp, rfl⟩
  · cases hd

/-- No order has come further; at most a new one has come. -/
structure Stays (h h' : Host) : Prop where
  registry : h'.registry = h.registry
  kept : ∀ (j : ThreadId) (g : Fulfilment), h.threads[j]? = some (.fulfilment g) → h'.threads[j]? = some (.fulfilment g)
  old : ∀ (j : ThreadId) (g : Fulfilment), h'.threads[j]? = some (.fulfilment g) →
    h.threads[j]? = some (.fulfilment g) ∨ g.phase = .lookUp

/-- An event is a move of an order, or brings no order further and is nobody's deed. -/
theorem after?_deeds (hs : h.after? ev = some h') :
    (h.Stays h' ∧ h.deeds ev = []) ∨
    ∃ i f k p, ev = .move i ∧ h.threads[i]? = some (.fulfilment f) ∧ f.Moves h k p ∧ h.deeds ev = f.deeds h i ∧
      h' = { k with threads := k.threads.set i (.fulfilment { f with phase := p }) } := by
  rcases after?_cases hs with ⟨ha, -, hn⟩ | ⟨id, rfl, rfl⟩ | ⟨o, starts, rfl, rfl⟩ | ⟨i, f, k, p, rfl, hi, hm, rfl⟩
  · refine .inl ⟨⟨ha.registry, fun j g => (ha.orders j g).2, fun j g hj => .inl ((ha.orders j g).1 hj)⟩, ?_⟩
    refine List.eq_nil_iff_forall_not_mem.2 fun d hd => ?_
    obtain ⟨i, f, he, hi, -⟩ := mem_deeds hd
    exact hn i f he hi
  · have hq := sameOrders_start h id
    exact .inl ⟨⟨start_registry h id, fun j g => (hq j g).2, fun j g hj => .inl ((hq j g).1 hj)⟩, rfl⟩
  · refine .inl ⟨⟨rfl, fun j g => getElem?_of_append rfl, fun j g hj => ?_⟩, rfl⟩
    rw [orders_after_arrival] at hj
    split at hj
    · rw [hj]; exact .inr rfl
    · exact .inl hj
  · exact .inr ⟨i, f, k, p, rfl, hi, hm, deeds_move hi, rfl⟩

/-- What becomes of an order: its thread makes a move, or nothing. -/
theorem after?_order (hs : h.after? ev = some h') (hi : h.threads[i]? = some (.fulfilment f)) :
    (ev ≠ .move i ∧ h'.threads[i]? = some (.fulfilment f)) ∨
    ∃ k p, ev = .move i ∧ f.Moves h k p ∧
      h' = { k with threads := k.threads.set i (.fulfilment { f with phase := p }) } := by
  by_cases hev : ev = .move i
  · subst hev
    obtain ⟨k, p, hm, rfl, -⟩ := order_turn hi hs
    exact .inr ⟨k, p, rfl, hm, rfl⟩
  · exact .inl ⟨hev, after?_thread hs hi hev⟩

theorem after?_rank (hs : h.after? ev = some h') (hi : h.threads[i]? = some (.fulfilment f)) :
    ∃ p, h'.threads[i]? = some (.fulfilment { f with phase := p }) ∧ f.phase.rank ≤ p.rank := by
  rcases after?_order hs hi with ⟨-, hi'⟩ | ⟨k, p, -, hm, rfl⟩
  · exact ⟨f.phase, hi', Nat.le_refl _⟩
  · exact ⟨p, moved_self hi hm, hm.rank_le⟩

/-- Every execution keeps the name and the unit that it was made with. -/
theorem after?_made (hs : h.after? ev = some h') {id : ExecutionId} {e : Execution} (he : h.execution? id = some e) :
    ∃ e', h'.execution? id = some e' ∧ e'.threadName = e.threadName ∧ e'.unit = e.unit := by
  have of_ages {m : Host} (ha : h.Ages m) :
      ∃ e', m.execution? id = some e' ∧ e'.threadName = e.threadName ∧ e'.unit = e.unit := by
    obtain ⟨e', he', hage⟩ := ha id e he
    exact ⟨e', he', by rw [hage.same], by rw [hage.same]⟩
  rcases after?_cases hs with ⟨ha, -⟩ | ⟨id, -, rfl⟩ | ⟨o, starts, -, rfl⟩ | ⟨i, f, k, p, -, -, hm, rfl⟩
  · rcases ha.forward he with hsame | ⟨o, hfin⟩
    · exact ⟨e, hsame, rfl, rfl⟩
    · exact ⟨_, hfin, rfl, rfl⟩
  · exact of_ages (ages_start h id)
  · exact ⟨e, he, rfl, rfl⟩
  · exact of_ages hm.ages

/-- Nobody but the thread that prepares for a name touches the token of its build. -/
theorem Seated.token_kept (hseat : h.Seated) (hs : h.after? ev = some h')
    (hj : h.threads[j]? = some (.fulfilment g)) (hg : g.phase.isAnnounced) (hev : ev ≠ .move j) :
    Assoc.find? g.name h'.registry.compiling = Assoc.find? g.name h.registry.compiling := by
  rcases after?_deeds hs with ⟨hst, -⟩ | ⟨i, f, k, p, rfl, hi, hm, -, rfl⟩
  · rw [hst.registry]
  · have hkept := hseat.token_of_other hi hm hj hg fun hji => hev (congrArg _ hji.symm)
    exact hkept

end

/-! ## Tables of names -/

/-- For every name that has an entry in a table, a thread is in certain phases. -/
def Attended {α : Type} (h : Host) (phases : Fulfilment.Phase → Prop) (table : Assoc String α) : Prop :=
  ∀ n, Assoc.find? n table ≠ none →
    ∃ (i : ThreadId) (f : Fulfilment), h.threads[i]? = some (.fulfilment f) ∧ f.name = n ∧ phases f.phase

section

variable {α : Type} {phases : Fulfilment.Phase → Prop} {table table' : Assoc String α}

theorem Attended.stays {h h' : Host} (ha : h.Attended phases table) (hst : h.Stays h') : h'.Attended phases table :=
  fun n hn => let ⟨i, f, hi, hf⟩ := ha n hn; ⟨i, f, hst.kept i f hi, hf⟩

/-- A move keeps a table attended if the thread that enters or leaves the phases makes or takes out the entry of
its name. -/
theorem Attended.moves {h k : Host} {i : ThreadId} {f : Fulfilment} {p : Fulfilment.Phase}
    (ha : h.Attended phases table) (hi : h.threads[i]? = some (.fulfilment f)) (hm : f.Moves h k p)
    (ht : (table' = table ∧ (phases p ↔ phases f.phase)) ∨ (phases p ∧ ∃ a, table' = Assoc.insert f.name a table) ∨
      table' = Assoc.erase f.name table) :
    Attended { k with threads := k.threads.set i (.fulfilment { f with phase := p }) } phases table' := by
  intro n hn
  -- whoever attends to another name than the moved thread's still does
  have other (hname : n ≠ f.name) (hold : Assoc.find? n table ≠ none) : ∃ (j : ThreadId) (g : Fulfilment),
      (k.threads.set i (.fulfilment { f with phase := p }))[j]? = some (.fulfilment g) ∧ g.name = n ∧
        phases g.phase := by
    obtain ⟨j, g, hj, rfl, hg⟩ := ha n hold
    refine ⟨j, g, moved_other hi hm hj ?_, rfl, hg⟩
    rintro rfl
    cases hi.symm.trans hj
    exact hname rfl
  rcases ht with ⟨rfl, hiff⟩ | ⟨hp, a, rfl⟩ | rfl
  · obtain ⟨j, g, hj, hname, hg⟩ := ha n hn
    by_cases hji : j = i
    · subst hji
      cases hi.symm.trans hj
      exact ⟨j, _, moved_self hi hm, hname, hiff.2 hg⟩
    · exact ⟨j, g, moved_other hi hm hj hji, hname, hg⟩
  · by_cases hname : n = f.name
    · exact ⟨i, _, moved_self hi hm, hname.symm, hp⟩
    · rw [Assoc.find?_insert_of_ne hname] at hn
      exact other hname hn
  · by_cases hname : n = f.name
    · rw [hname, Assoc.find?_erase_self] at hn
      exact absurd rfl hn
    · rw [Assoc.find?_erase_of_ne hname] at hn
      exact other hname hn

end

/-! ## The invariant -/

/-- What holds after any events. -/
structure Kept (ds : List Deed) (h : Host) : Prop where
  ledger : h.Ledger
  held : h.Attended Fulfilment.Phase.holdsLock h.registry.builders
  listed : h.Attended Fulfilment.Phase.isAnnounced h.registry.compiling
  announced : ∀ (i : ThreadId) (f : Fulfilment), h.threads[i]? = some (.fulfilment f) → f.phase.isAnnounced →
    ∃ t, .entered i f.name t ∈ ds
  entered : ∀ i n t, .entered i n t ∈ ds → t < h.tokens.length ∧ ∃ f, h.threads[i]? = some (.fulfilment f) ∧
    f.name = n ∧ 4 ≤ f.phase.rank ∧ (f.phase.isAnnounced → Assoc.find? n h.registry.compiling = some t)
  own : ∀ i j n m t, .entered i n t ∈ ds → .entered j m t ∈ ds → i = j
  registered : ∀ i id, .registered i id ∈ ds → ∃ f, h.threads[i]? = some (.fulfilment f) ∧ 8 ≤ f.phase.rank
  once : ∀ i a b, .registered i a ∈ ds → .registered i b ∈ ds → a = b
  pending : ∀ (i : ThreadId) (f : Fulfilment) unit, h.threads[i]? = some (.fulfilment f) →
    f.phase.built? = some unit → lastBuilt? f.name ds = some (i, unit)
  settled : ∀ n, (∀ (i : ThreadId) (f : Fulfilment), h.threads[i]? = some (.fulfilment f) → f.name = n →
    f.phase.built? = none) → h.Standing ds n

theorem kept_fresh {h : Host} (hf : h.Fresh) : Kept [] h := by
  have ht : ∀ (i : ThreadId) t, h.threads[i]? ≠ some t := by intro i t; rw [hf.threads]; exact nofun
  refine ⟨ledger_fresh hf, fun n hn => ?_, fun n hn => ?_, fun i f hi => absurd hi (ht i _), nofun, nofun, nofun,
    nofun, fun i f _ hi => absurd hi (ht i _), fun n _ => ⟨fun _ => ?_, nofun⟩⟩
  · rw [hf.registry] at hn
    exact absurd rfl hn
  · rw [hf.registry] at hn
    exact absurd rfl hn
  · unfold registered?
    rw [hf.registry]
    rfl

section Step

variable {ds : List Deed} {h h' : Host} {ev : Event}

theorem Kept.held_after (ih : Kept ds h) (hs : h.after? ev = some h') :
    h'.Attended Fulfilment.Phase.holdsLock h'.registry.builders := by
  rcases after?_deeds hs with ⟨hst, -⟩ | ⟨i, f, k, p, -, hi, hm, -, rfl⟩
  · rw [hst.registry]
    exact ih.held.stays hst
  · refine ih.held.moves hi hm ?_
    rcases hm.builders with hk | ⟨-, -, hp, hk⟩ | ⟨-, hk, -⟩
    · exact .inl hk
    · exact .inr (.inl ⟨hp, _, hk⟩)
    · exact .inr (.inr hk)

theorem Kept.listed_after (ih : Kept ds h) (hs : h.after? ev = some h') :
    h'.Attended Fulfilment.Phase.isAnnounced h'.registry.compiling := by
  rcases after?_deeds hs with ⟨hst, -⟩ | ⟨i, f, k, p, -, hi, hm, -, rfl⟩
  · rw [hst.registry]
    exact ih.listed.stays hst
  · refine ih.listed.moves hi hm ?_
    rcases hm.announced with hk | ⟨-, hp, hk⟩ | ⟨-, hk, -⟩
    · exact .inl hk
    · exact .inr (.inl ⟨hp, _, hk⟩)
    · exact .inr (.inr hk)

theorem Kept.announced_after (ih : Kept ds h) (hs : h.after? ev = some h') (j : ThreadId) (g : Fulfilment)
    (hj : h'.threads[j]? = some (.fulfilment g)) (hg : g.phase.isAnnounced) :
    ∃ t, .entered j g.name t ∈ h.deeds ev ++ ds := by
  -- one that was preparing before has entered its token before
  have before {f : Fulfilment} (hf : h.threads[j]? = some (.fulfilment f)) (hp : f.phase.isAnnounced) :
      ∃ t, .entered j f.name t ∈ h.deeds ev ++ ds :=
    let ⟨t, ht⟩ := ih.announced j f hf hp; ⟨t, List.mem_append_right _ ht⟩
  rcases after?_deeds hs with ⟨hst, -⟩ | ⟨i, f, k, p, rfl, hi, hm, hd, rfl⟩
  · rcases hst.old j g hj with hold | hnew
    · exact before hold hg
    · rw [hnew] at hg; exact hg.elim
  · rw [orders_after_move hi hm] at hj
    split at hj
    · rename_i hji
      subst hji hj
      rcases hm.announced with ⟨-, hiff⟩ | ⟨hp, -, -⟩ | ⟨-, -, hn⟩
      · have hold := before hi (hiff.1 hg)
        exact hold
      · refine ⟨h.tokens.length, List.mem_append_left _ ?_⟩
        rw [hd]
        unfold Fulfilment.deeds
        rw [hp]
        exact List.mem_singleton_self _
      · exact absurd hg hn
    · exact before hj hg

theorem Kept.entered_after (ih : Kept ds h) (hs : h.after? ev = some h') (i : ThreadId) (n : String) (t : TokenId)
    (hd : .entered i n t ∈ h.deeds ev ++ ds) : t < h'.tokens.length ∧ ∃ f, h'.threads[i]? = some (.fulfilment f) ∧
      f.name = n ∧ 4 ≤ f.phase.rank ∧ (f.phase.isAnnounced → Assoc.find? n h'.registry.compiling = some t) := by
  rcases List.mem_append.1 hd with hd | hd
  · obtain ⟨f, rfl, hi, hp, rfl, rfl⟩ := entered_mem_deeds hd
    have hstep : f.step h = some ({ h.newToken.2 with registry := { h.registry with
        compiling := Assoc.insert f.name h.tokens.length h.registry.compiling } },
        { f with phase := .resolve h.tokens.length }) := by
      unfold Fulfilment.step
      simp only [hp]
      rfl
    cases (after?_fulfilment hi hstep).symm.trans hs
    refine ⟨by simp [newToken], _, moved_self hi (.announce hp), rfl, Nat.le_refl 4, fun _ => ?_⟩
    exact Assoc.find?_insert_self _ _ _
  · obtain ⟨hlt, f, hi, hname, hrank, hentry⟩ := ih.entered i n t hd
    refine ⟨Nat.lt_of_lt_of_le hlt (after?_tokens hs), ?_⟩
    rcases after?_order hs hi with ⟨hev, hi'⟩ | ⟨k, p, -, hm, rfl⟩
    · refine ⟨f, hi', hname, hrank, fun ha => ?_⟩
      rw [← hentry ha, ← hname]
      exact ih.ledger.seated.token_kept hs hi ha hev
    · refine ⟨_, moved_self hi hm, hname, Nat.le_trans hrank hm.rank_le, fun ha => ?_⟩
      rcases hm.announced with ⟨hk, hiff⟩ | ⟨hp, -, -⟩ | ⟨-, -, hn⟩
      · simp only [hk]
        exact hentry (hiff.1 ha)
      · -- it has entered its token, so it does not do so again
        rw [hp] at hrank
        exact absurd hrank (Nat.not_succ_le_self 3)
      · exact absurd ha hn

theorem Kept.own_after (ih : Kept ds h) (i j : ThreadId) (n m : String) (t : TokenId)
    (hi : .entered i n t ∈ h.deeds ev ++ ds) (hj : .entered j m t ∈ h.deeds ev ++ ds) : i = j := by
  -- a token that is entered now is new
  have new {i j : ThreadId} {n m : String} (hi : .entered i n t ∈ h.deeds ev) (hj : .entered j m t ∈ ds) : i = j := by
    obtain ⟨-, -, -, -, -, rfl⟩ := entered_mem_deeds hi
    exact absurd (ih.entered j m _ hj).1 (Nat.lt_irrefl _)
  rcases List.mem_append.1 hi with hi | hi <;> rcases List.mem_append.1 hj with hj | hj
  · obtain ⟨-, hev, -⟩ := entered_mem_deeds hi
    obtain ⟨-, hev', -⟩ := entered_mem_deeds hj
    cases hev.symm.trans hev'
    rfl
  · exact new hi hj
  · exact (new hj hi).symm
  · exact ih.own i j n m t hi hj

theorem Kept.registered_after (ih : Kept ds h) (hs : h.after? ev = some h') (i : ThreadId) (id : ExecutionId)
    (hd : .registered i id ∈ h.deeds ev ++ ds) :
    ∃ f, h'.threads[i]? = some (.fulfilment f) ∧ 8 ≤ f.phase.rank := by
  rcases List.mem_append.1 hd with hd | hd
  · obtain ⟨f, unit, rfl, hi, hp, -⟩ := registered_mem_deeds hd
    have hstep : f.step h = some ((h.registerExecution f.order unit).2,
        { f with phase := .release (.ok h.executions.length) }) := by
      unfold Fulfilment.step
      simp only [hp]
      rfl
    cases (after?_fulfilment hi hstep).symm.trans hs
    exact ⟨_, moved_self hi (.register hp), Nat.le_refl 8⟩
  · obtain ⟨f, hi, hrank⟩ := ih.registered i id hd
    obtain ⟨p, hi', hp⟩ := after?_rank hs hi
    exact ⟨_, hi', Nat.le_trans hrank hp⟩

theorem Kept.once_after (ih : Kept ds h) (i : ThreadId) (a b : ExecutionId)
    (ha : .registered i a ∈ h.deeds ev ++ ds) (hb : .registered i b ∈ h.deeds ev ++ ds) : a = b := by
  -- a thread that registers now has not done so before
  have new {a b : ExecutionId} (ha : .registered i a ∈ h.deeds ev) (hb : .registered i b ∈ ds) : a = b := by
    obtain ⟨f, unit, -, hi, hp, -⟩ := registered_mem_deeds ha
    obtain ⟨g, hi', hrank⟩ := ih.registered i b hb
    cases hi.symm.trans hi'
    rw [hp] at hrank
    exact absurd hrank (Nat.not_succ_le_self 7)
  rcases List.mem_append.1 ha with ha | ha <;> rcases List.mem_append.1 hb with hb | hb
  · obtain ⟨-, -, -, -, -, rfl⟩ := registered_mem_deeds ha
    obtain ⟨-, -, -, -, -, rfl⟩ := registered_mem_deeds hb
    rfl
  · exact new ha hb
  · exact (new hb ha).symm
  · exact ih.once i a b ha hb

theorem Kept.pending_after (ih : Kept ds h) (hs : h.after? ev = some h') (j : ThreadId) (g : Fulfilment)
    (unit : ExecutableUnit) (hj : h'.threads[j]? = some (.fulfilment g)) (hg : g.phase.built? = some unit) :
    lastBuilt? g.name (h.deeds ev ++ ds) = some (j, unit) := by
  rcases after?_deeds hs with ⟨hst, hd⟩ | ⟨i, f, k, p, rfl, hi, hm, hd, rfl⟩
  · rw [hd]
    rcases hst.old j g hj with hold | hnew
    · exact ih.pending j g unit hold hg
    · rw [hnew] at hg; cases hg
  · rw [hd]
    rw [orders_after_move hi hm] at hj
    split at hj
    · rename_i hji
      subst hji hj
      rcases hm.builds j with ⟨hp, -, hnone⟩ | ⟨unit', -, hp, -, hone⟩ | ⟨-, -, hp, -⟩
      · rw [lastBuilt?_append_of_none (hnone _)]
        exact ih.pending j f unit hi (hp.symm.trans hg)
      · cases hp.symm.trans hg
        rw [hone, lastBuilt?_append, lastBuilt?_built, if_pos rfl]
        rfl
      · cases hp.symm.trans hg
    · rename_i hji
      have hold := ih.pending j g unit hj hg
      rcases hm.builds i with ⟨-, -, hnone⟩ | ⟨unit', hl, -, -, hone⟩ | ⟨-, -, -, -, hone⟩
      · rw [lastBuilt?_append_of_none (hnone _)]
        exact hold
      · -- both hold the locks of their names, so the names are two
        have hne : f.name ≠ g.name := fun hn => hji
          (ih.ledger.seated.eq_of_holdsLock hi hj hn hl (Fulfilment.Phase.holdsLock_of_built? hg)).symm
        rw [hone, lastBuilt?_append_of_none ((lastBuilt?_built _ _ _ _).trans (if_neg hne))]
        exact hold
      · rw [hone, lastBuilt?_append_of_none rfl]
        exact hold

/-- What stands for a name stands after an event that neither builds nor registers for it. -/
theorem Standing.after {n : String} (hst : h.Standing ds n) (hs : h.after? ev = some h')
    (hd : lastBuilt? n (h.deeds ev) = none) (hr : h'.registered? n = h.registered? n) :
    h'.Standing (h.deeds ev ++ ds) n := by
  have hl := lastBuilt?_append_of_none hd ds
  refine ⟨fun hn => hr.trans (hst.unbuilt (hl.symm.trans hn)), fun i unit hb => ?_⟩
  obtain ⟨id, e, hid, hreg, he, hname, hunit⟩ := hst.built i unit (hl.symm.trans hb)
  obtain ⟨e', he', hname', hunit'⟩ := after?_made hs he
  exact ⟨id, e', List.mem_append_right _ hid, hr.trans hreg, he', hname'.trans hname, hunit'.trans hunit⟩

theorem Kept.settled_after (ih : Kept ds h) (hs : h.after? ev = some h') (n : String)
    (hn : ∀ (i : ThreadId) (f : Fulfilment), h'.threads[i]? = some (.fulfilment f) → f.name = n →
      f.phase.built? = none) : h'.Standing (h.deeds ev ++ ds) n := by
  rcases after?_deeds hs with ⟨hst, hd⟩ | ⟨i, f, k, p, rfl, hi, hm, hd, rfl⟩
  · refine (ih.settled n fun i f hi => hn i f (hst.kept i f hi)).after hs (by rw [hd]; rfl) ?_
    unfold registered?
    rw [hst.registry]
  · -- if the thread that moved has nothing built for the name, the name was settled before
    have before (hself : f.name = n → f.phase.built? = none) : h.Standing ds n := by
      refine ih.settled n fun j g hj hname => ?_
      by_cases hji : j = i
      · subst hji
        cases hi.symm.trans hj
        exact hself hname
      · exact hn j g (moved_other hi hm hj hji) hname
    rcases hm.builds i with ⟨hp, hk, hnone⟩ | ⟨unit, -, hp, hk, hone⟩ | ⟨unit, hp, -, rfl, hone⟩
    · refine (before fun hname => hp.symm.trans (hn i _ (moved_self hi hm) hname)).after hs
        (by rw [hd]; exact hnone n) ?_
      unfold registered?
      simp only [hk]
    · have hne : f.name ≠ n := fun hname => by cases hp.symm.trans (hn i _ (moved_self hi hm) hname)
      refine (before fun hname => absurd hname hne).after hs
        (by rw [hd, hone]; exact (lastBuilt?_built _ _ _ _).trans (if_neg hne)) ?_
      unfold registered?
      simp only [hk]
    · by_cases hname : n = f.name
      · -- the execution of what was built last is registered now
        subst hname
        have hlast := ih.pending i f unit hi (by rw [hp]; rfl)
        rw [hd, hone]
        have hl : lastBuilt? f.name ([.registered i h.executions.length] ++ ds) = some (i, unit) :=
          (lastBuilt?_append_of_none rfl ds).trans hlast
        refine ⟨fun hnone => (by cases hl.symm.trans hnone), fun j unit' hb => ?_⟩
        cases hl.symm.trans hb
        exact ⟨h.executions.length, _, List.mem_cons_self,
          (registered?_registerExecution h f.order unit _).trans (if_pos rfl),
          (execution?_registerExecution h f.order unit _).trans (if_pos rfl), rfl, rfl⟩
      · exact (before fun h => absurd h.symm hname).after hs (by rw [hd, hone]; rfl)
          (registered?_registerExecution_of_ne hname h unit)

theorem Kept.after (ih : Kept ds h) (hs : h.after? ev = some h') : Kept (h.deeds ev ++ ds) h' :=
  ⟨ih.ledger.after hs, ih.held_after hs, ih.listed_after hs, ih.announced_after hs, ih.entered_after hs,
    ih.own_after, ih.registered_after hs, ih.once_after, ih.pending_after hs, ih.settled_after hs⟩

end Step

theorem kept_of_worked {h0 h : Host} {ds : List Deed} (hf : h0.Fresh) (hw : h0.Worked ds h) : Kept ds h := by
  induction hw with
  | start => exact kept_fresh hf
  | next _ hs ih => exact ih.after hs

/-! ## What follows from it -/

section

variable {ds : List Deed} {h k : Host} {ev : Event} {i j : ThreadId} {n : String} {t : TokenId}

theorem Kept.holder_eq (ih : Kept ds h) (hi : h.Holds i n) (hj : h.Holds j n) : i = j := by
  obtain ⟨f, hi, hf, hlf⟩ := hi
  obtain ⟨g, hj, hg, hlg⟩ := hj
  exact ih.ledger.seated.eq_of_holdsLock hi hj (hf.trans hg.symm) hlf hlg

theorem Prepares.holds (hp : h.Prepares i n) : h.Holds i n :=
  let ⟨f, hi, hname, hf⟩ := hp; ⟨f, hi, hname, Fulfilment.Phase.holdsLock_of_isAnnounced hf⟩

/-- The table of builds has the tokens that were entered by those who prepare. -/
theorem Kept.compiling_iff (ih : Kept ds h) : Assoc.find? n h.registry.compiling = some t ↔
    ∃ i, h.Prepares i n ∧ .entered i n t ∈ ds := by
  have entry {i : ThreadId} {f : Fulfilment} {t : TokenId} (hi : h.threads[i]? = some (.fulfilment f))
      (hf : f.phase.isAnnounced) (hd : .entered i n t ∈ ds) : Assoc.find? n h.registry.compiling = some t := by
    obtain ⟨-, g, hi', -, -, hg⟩ := ih.entered i n t hd
    cases hi.symm.trans hi'
    exact hg hf
  constructor
  · intro hn
    obtain ⟨i, f, hi, rfl, hf⟩ := ih.listed n (by rw [hn]; exact nofun)
    obtain ⟨t', hd⟩ := ih.announced i f hi hf
    cases hn.symm.trans (entry hi hf hd)
    exact ⟨i, ⟨f, hi, rfl, hf⟩, hd⟩
  · rintro ⟨i, ⟨f, hi, -, hf⟩, hd⟩
    exact entry hi hf hd

/-- The token of a build stays in the table until its own thread takes it out. -/
theorem Kept.token_after (ih : Kept ds h) (hs : h.after? ev = some k)
    (hn : Assoc.find? n h.registry.compiling = some t) : Assoc.find? n k.registry.compiling = some t ∨
      ∃ i, ev = .move i ∧ .entered i n t ∈ ds ∧ Assoc.find? n k.registry.compiling = none := by
  obtain ⟨i, ⟨f, hi, rfl, hf⟩, hd⟩ := ih.compiling_iff.1 hn
  rcases after?_order hs hi with ⟨hev, -⟩ | ⟨m, p, hev, hm, rfl⟩
  · exact .inl ((ih.ledger.seated.token_kept hs hi hf hev).trans hn)
  · rcases hm.announced with ⟨hk, -⟩ | ⟨hp, -, -⟩ | ⟨-, hk, -⟩
    · exact .inl (by simp only [hk]; exact hn)
    · rw [hp] at hf
      exact hf.elim
    · exact .inr ⟨i, hev, hd, by simp only [hk]; exact Assoc.find?_erase_self _ _⟩

theorem Kept.standing (ih : Kept ds h) (hn : ∀ i, ¬ h.Holds i n) : h.Standing ds n := by
  refine ih.settled n fun i f hi hname => ?_
  cases hb : f.phase.built? with
  | none => rfl
  | some unit => exact absurd ⟨f, hi, hname, Fulfilment.Phase.holdsLock_of_built? hb⟩ (hn i)

/-- What a caller waits for who has no move. -/
theorem Kept.waits (ih : Kept ds h) {f : Fulfilment} (hi : h.threads[i]? = some (.fulfilment f))
    (hs : h.after? (.move i) = none) : (∃ r, f.phase = .done r) ∨
      (∃ token work, f.phase = .compile token work ∧ (∀ unit?, work ≠ .done unit?) ∧
        work.step { self := i } h = none) ∨
      ∃ j, j ≠ i ∧ h.Holds j f.name := by
  have hstep : f.step h = none := by
    cases hf : f.step h with
    | none => rfl
    | some r => cases (after?_fulfilment hi hf).symm.trans hs
  rcases Fulfilment.waits_of_step hstep with hd | ⟨token, work, hp, hw, hstep⟩ | ⟨hp, hc⟩
  · exact .inl hd
  · rw [(ih.ledger.seated i f hi).1] at hstep
    exact .inr (.inl ⟨token, work, hp, hw, hstep⟩)
  · obtain ⟨j, g, hj, hname, hg⟩ := ih.held f.name fun hn => by unfold Assoc.contains at hc; rw [hn] at hc; cases hc
    refine .inr (.inr ⟨j, ?_, g, hj, hname, hg⟩)
    rintro rfl
    -- it still waits for the lock, so it does not hold it
    cases hi.symm.trans hj
    rw [hp] at hg
    exact hg

end

/-- After any events, whatever callers there are for whatever names: a name has one thread that holds its
lock. The table of builds has an entry for a name exactly while such a thread resolves or compiles for it,
and that is the token that this thread, and nobody else, has entered; no event changes it but the one by which
its thread takes it out. While nobody holds the lock of a name, what is registered under it is what the last
one who built for it has registered. And a caller who has no move is through, waits in its own compiler, or waits
for a thread that holds the lock of the very name that it asks for. -/
theorem one_builder_for_a_name {h0 h : Host} {ds : List Deed} (hf : h0.Fresh) (hw : h0.Worked ds h) :
    (∀ i j n, h.Holds i n → h.Holds j n → i = j) ∧
    (∀ i n, h.Prepares i n → h.Holds i n ∧ ∃ t, .entered i n t ∈ ds) ∧
    (∀ n t, Assoc.find? n h.registry.compiling = some t ↔ ∃ i, h.Prepares i n ∧ .entered i n t ∈ ds) ∧
    (∀ i j n m t, .entered i n t ∈ ds → .entered j m t ∈ ds → i = j) ∧
    (∀ ev k n t, h.after? ev = some k → Assoc.find? n h.registry.compiling = some t →
      Assoc.find? n k.registry.compiling = some t ∨
      ∃ i, ev = .move i ∧ .entered i n t ∈ ds ∧ Assoc.find? n k.registry.compiling = none) ∧
    (∀ i a b, .registered i a ∈ ds → .registered i b ∈ ds → a = b) ∧
    (∀ n, (∀ i, ¬ h.Holds i n) → h.Standing ds n) ∧
    (∀ i f, h.threads[i]? = some (.fulfilment f) → h.after? (.move i) = none → (∃ r, f.phase = .done r) ∨
      (∃ token work, f.phase = .compile token work ∧ (∀ unit?, work ≠ .done unit?) ∧
        work.step { self := i } h = none) ∨
      ∃ j, j ≠ i ∧ h.Holds j f.name) := by
  have ih := kept_of_worked hf hw
  refine ⟨fun i j n => ih.holder_eq, fun i n hp => ⟨hp.holds, ?_⟩, fun n t => ih.compiling_iff, ih.own,
    fun ev k n t => ih.token_after, ih.once, fun n => ih.standing, fun i f => ih.waits⟩
  obtain ⟨f, hi, rfl, hf⟩ := hp
  exact ih.announced i f hi hf

theorem Worked.played {h0 h k : Host} {ds : List Deed} {evs : List Event} (hw : h0.Worked ds h)
    (hs : h.played evs = some k) : ∃ ds', h0.Worked ds' k := by
  induction evs generalizing h ds with
  | nil =>
    cases hs
    exact ⟨ds, hw⟩
  | cons ev evs ih =>
    unfold Host.played at hs
    rw [List.foldlM_cons] at hs
    obtain ⟨m, hm, hs⟩ := Option.bind_eq_some_iff.1 hs
    exact ih (hw.next hm) hs

/-- The name whose lock a thread waits for. -/
def awaited? (h : Host) (i : ThreadId) : Option String :=
  match h.threads[i]? with
  | some (.fulfilment f) =>
    match f.phase with
    | .wantBuild => some f.name
    | _ => none
  | _ => none

theorem awaited?_eq_some {h : Host} {i : ThreadId} {n : String} (ha : h.awaited? i = some n) :
    ∃ f, h.threads[i]? = some (.fulfilment f) ∧ f.phase = .wantBuild ∧ f.name = n := by
  unfold awaited? at ha
  split at ha
  · rename_i f hi
    split at ha
    · rename_i hp
      cases ha
      exact ⟨f, hi, hp, rfl⟩
    · cases ha
  · cases ha

/-- Two callers want a name, and a third another one. The first compiles, the second waits for it, and the third
has its execution meanwhile. -/
def contested : List Event :=
  [.order job false, .order job false, .order { job with threadName := "other" } false] ++
    List.replicate 5 (.move 0) ++ [.move 1] ++ List.replicate 10 (.move 2)

theorem contested_waits : ∃ ds h, plain.Worked ds h ∧ h.registered? "other" = some 0 ∧
    (∃ i, h.Prepares i "job" ∧ .entered i "job" 0 ∈ ds) ∧
    h.awaited? 1 = some "job" ∧ ∃ j, j ≠ 1 ∧ h.Holds j "job" := by
  have hp : (plain.played contested).any (fun h => h.registered? "other" = some 0 ∧
      Assoc.find? "job" h.registry.compiling = some 0 ∧ h.awaited? 1 = some "job" ∧
      (h.after? (.move 1)).isNone) = true := by
    decide +kernel
  obtain ⟨h, hs, hp⟩ := (Option.any_eq_true _ _).1 hp
  obtain ⟨hother, hentry, hwants, hstuck⟩ := of_decide_eq_true hp
  obtain ⟨ds, hw⟩ := Worked.start.played hs
  obtain ⟨-, -, hentries, -, -, -, -, hwaits⟩ := one_builder_for_a_name fresh_plain hw
  refine ⟨ds, h, hw, hother, (hentries "job" 0).1 hentry, hwants, ?_⟩
  obtain ⟨f, h1, hphase, hname⟩ := awaited?_eq_some hwants
  rcases hwaits 1 f h1 (Option.isNone_iff_eq_none.1 hstuck) with ⟨r, hp⟩ | ⟨token, work, hp, -⟩ | hj
  · cases hphase.symm.trans hp
  · cases hphase.symm.trans hp
  · rw [← hname]
    exact hj

end Host

end Scripting
