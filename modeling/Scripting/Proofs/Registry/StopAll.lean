/-
Stopping everything. Whoever wants everything stopped lists the executions that are registered and
raises the flags of their tokens one after the other; an execution that runs unregistered is not on the
list. So what still runs on after everything was stopped was started late.
-/
import Scripting.Proofs.Registry.Sequence

namespace Scripting

/-! ## One request -/

/-- A request that has begun has raised the flag of its token, and raises no other. -/
theorem StopRequest.step_flags {h k : Host} {r r' : StopRequest} (hs : r.step h = some (k, r')) :
    r'.token = r.token ∧ r'.phase ≠ .start ∧
      (r.phase = .start → r.token < h.tokens.length → k.isStopped r.token = true) ∧
      ∀ t, t ≠ r.token → k.isStopped t = h.isStopped t := by
  obtain ⟨hm, hr⟩ := moves_of_step hs
  generalize r'.phase = phase at hm hr
  subst hr
  refine ⟨rfl, ?_, fun hst hlt => ?_, fun u hu => (hm.isStopped u).resolve_right fun h => hu h.1⟩
  · cases hm <;> exact nofun
  · cases hm with
    | raise _ ht _ => exact Host.isStopped_iff.2 ⟨_, (token?_setToken ht r.token).trans (if_pos rfl), rfl⟩
    | needless _ hup =>
      have ht : h.token? r.token = some h.tokens[r.token] := List.getElem?_eq_getElem hlt
      exact Host.isStopped_iff.2 ⟨_, ht, hup _ ht⟩
    | list hp | finish hp | wake hp _ => rw [hst] at hp; cases hp

/-- What follows when these tokens are left. -/
def StopAll.behind : List TokenId → StopAll
  | [] => .done
  | t :: left => .stopping { token := t } left

/-- The moves of a request to stop everything. -/
theorem StopAll.step_cases {h k : Host} {s s' : StopAll} (hs : s.step h = some (k, s')) :
    (s = .start ∧ k = h ∧ s' = .listed (h.registry.entries.map Prod.snd)) ∨
    (∃ ids, s = .listed ids ∧ k = h ∧ s' = behind ((ids.filterMap fun id => (h.execution? id).map (·.token)) ++
      h.registry.compiling.map Prod.snd)) ∨
    (∃ r left, s = .stopping r left ∧ r.phase = .done ∧ k = h ∧ s' = behind left) ∨
    (∃ r r' left, s = .stopping r left ∧ r.step h = some (k, r') ∧ s' = .stopping r' left) := by
  have hnext (left : List TokenId) : (match left with
      | [] => .done
      | t :: left => .stopping { token := t } left) = behind left := by cases left <;> rfl
  unfold step at hs
  split at hs
  · cases hs; exact .inl ⟨rfl, rfl, rfl⟩
  · cases hs; exact .inr (.inl ⟨_, rfl, rfl, hnext _⟩)
  · split at hs
    · rename_i hd
      cases hs; exact .inr (.inr (.inl ⟨_, _, rfl, hd, rfl, hnext _⟩))
    · obtain ⟨⟨k', r'⟩, hr, hs⟩ := Option.map_eq_some_iff.1 hs
      cases hs
      exact .inr (.inr (.inr ⟨_, _, _, rfl, hr, rfl⟩))
  · cases hs

namespace Host

/-! ## The registered are stopped -/

/-- The token of every registered execution is stopped or will be. -/
def Pursues (h : Host) : StopAll → Prop
  | .start => True
  | .listed ids => ∀ n id, h.registered? n = some id → id ∈ ids
  | .stopping r left => ∀ n id e, h.registered? n = some id → h.execution? id = some e →
      h.isStopped e.token = true ∨ e.token ∈ left ∨ (e.token = r.token ∧ r.phase = .start)
  | .done => ∀ n id e, h.registered? n = some id → h.execution? id = some e → h.isStopped e.token = true

theorem pursues_behind {h : Host} {left : List TokenId}
    (hl : ∀ n id e, h.registered? n = some id → h.execution? id = some e →
      h.isStopped e.token = true ∨ e.token ∈ left) :
    h.Pursues (.behind left) := by
  cases left with
  | nil =>
    intro n id e hn he
    exact (hl n id e hn he).resolve_right List.not_mem_nil
  | cons t left =>
    intro n id e hn he
    rcases hl n id e hn he with hst | hm
    · exact .inl hst
    · exact .inr ((List.mem_cons.1 hm).elim (fun ht => .inr ⟨ht, rfl⟩) .inl)

theorem pursues_after {h k : Host} {s s' : StopAll} (ht : h.Tokened) (hp : h.Pursues s)
    (hs : s.step h = some (k, s')) : k.Pursues s' := by
  rcases StopAll.step_cases hs with ⟨rfl, rfl, rfl⟩ | ⟨ids, rfl, rfl, rfl⟩ | ⟨r, left, rfl, hd, rfl, rfl⟩ |
    ⟨r, r', left, rfl, hr, rfl⟩
  · -- every entry is listed
    intro n id hn
    exact List.mem_map_of_mem (f := Prod.snd) (Assoc.mem_of_find? hn)
  · -- the tokens of all that are listed are left
    refine pursues_behind fun n id e hn he => .inr (List.mem_append_left _ ?_)
    exact List.mem_filterMap.2 ⟨id, hp n id hn, by rw [he]; rfl⟩
  · refine pursues_behind fun n id e hn he => ?_
    rcases hp n id e hn he with hst | hm | ⟨-, hst⟩
    · exact .inl hst
    · exact .inr hm
    · rw [hd] at hst; cases hst
  · -- a request that begins raises the flag of its token, and no flag goes down again
    obtain ⟨-, -, hraised, -⟩ := StopRequest.step_flags hr
    have q := StopRequest.quiet_step hr
    intro n id e hn he
    unfold registered? at hn
    rw [q.registry] at hn
    unfold execution? at he
    rw [q.executions] at he
    rcases hp n id e hn he with hst | hm | ⟨htok, hst⟩
    · exact .inl (q.flags _ hst)
    · exact .inr (.inl hm)
    · exact .inl (by rw [htok]; exact hraised hst (htok ▸ ht.there id e he))

theorem Aside.pursues {h k : Host} (ha : h.Aside k) {s : StopAll} (hp : h.Pursues s) : k.Pursues s := by
  have hreg := ha.registered?
  -- the executions have the tokens that they had
  have htok {id : ExecutionId} {e : Execution} (he : k.execution? id = some e) :
      ∃ e0, h.execution? id = some e0 ∧ e.token = e0.token := by
    obtain ⟨e0, h0, -, -, -, ht⟩ := ha.onward.older id e he
    exact ⟨e0, h0, ht⟩
  cases s with
  | start => trivial
  | listed ids => intro n id hn; exact hp n id (by rw [← hreg]; exact hn)
  | stopping r left =>
    intro n id e hn he
    obtain ⟨e0, h0, ht⟩ := htok he
    rw [ht]
    exact (hp n id e0 (by rw [← hreg]; exact hn) h0).imp_left (ha.flags _)
  | done =>
    intro n id e hn he
    obtain ⟨e0, h0, ht⟩ := htok he
    rw [ht]
    exact ha.flags _ (hp n id e0 (by rw [← hreg]; exact hn) h0)

theorem pursues_course {late : List ExecutionId} {h k : Host} {s : StopAll} (ih : Orderly late h)
    (hc : Course Event.Unasked (fun h s => s.step h) h StopAll.start k s) : k.Pursues s := by
  induction hc with
  | start => trivial
  | move hc hs hp => exact pursues_after (ih.stopping hc).1.tokened hp hs
  | event hc hu hs hp => exact ((ih.stopping hc).1.aside_of_unasked hu hs).pursues hp

/-! ## The others are not -/

/-- A request to stop everything leaves a token alone. -/
def Spares (h : Host) (t : TokenId) : StopAll → Prop
  | .start => h.registry.compiling = [] ∧
      ∀ n id e, h.registered? n = some id → h.execution? id = some e → e.token ≠ t
  | .listed ids => h.registry.compiling = [] ∧ ∀ id ∈ ids, ∀ e, h.execution? id = some e → e.token ≠ t
  | .stopping r left => r.token ≠ t ∧ t ∉ left
  | .done => True

theorem spares_behind {h : Host} {t : TokenId} {left : List TokenId} (hl : t ∉ left) :
    h.Spares t (.behind left) := by
  cases left with
  | nil => trivial
  | cons u left => exact ⟨fun hu => hl (hu ▸ List.mem_cons_self), fun hm => hl (List.mem_cons_of_mem _ hm)⟩

theorem spares_after {h k : Host} {t : TokenId} {s s' : StopAll} (ha : Assoc.Ascending h.registry.entries)
    (hp : h.Spares t s) (hs : s.step h = some (k, s')) : k.Spares t s' ∧ k.isStopped t = h.isStopped t := by
  rcases StopAll.step_cases hs with ⟨rfl, rfl, rfl⟩ | ⟨ids, rfl, rfl, rfl⟩ | ⟨r, left, rfl, -, rfl, rfl⟩ |
    ⟨r, r', left, rfl, hr, rfl⟩
  · refine ⟨⟨hp.1, fun id hid e he => ?_⟩, rfl⟩
    obtain ⟨⟨n, j⟩, hn, rfl⟩ := List.mem_map.1 hid
    exact hp.2 n j e (Assoc.find?_of_mem ha hn) he
  · refine ⟨spares_behind fun hm => ?_, rfl⟩
    rw [hp.1, List.map_nil, List.append_nil, List.mem_filterMap] at hm
    obtain ⟨id, hid, hm⟩ := hm
    obtain ⟨e, he, hm⟩ := Option.map_eq_some_iff.1 hm
    exact hp.2 id hid e he hm
  · exact ⟨spares_behind hp.2, rfl⟩
  · obtain ⟨htok, -, -, hother⟩ := StopRequest.step_flags hr
    exact ⟨⟨by rw [htok]; exact hp.1, hp.2⟩, hother t (Ne.symm hp.1)⟩

/-- A request that nobody comes between leaves the executions as they are, and a token that it spares. -/
theorem spares_course {h k : Host} {t : TokenId} {s : StopAll} (ha : Assoc.Ascending h.registry.entries)
    (hp : h.Spares t .start) (hc : Course (fun _ => False) (fun h s => s.step h) h StopAll.start k s) :
    k.Spares t s ∧ k.isStopped t = h.isStopped t ∧ k.executions = h.executions ∧ k.registry = h.registry := by
  induction hc with
  | start => exact ⟨hp, rfl, rfl, rfl⟩
  | move _ hs ih =>
    obtain ⟨ih, hst, hex, hr⟩ := ih
    have q := StopAll.quiet_step hs
    obtain ⟨hn, hst'⟩ := spares_after (by rw [hr]; exact ha) ih hs
    exact ⟨hn, hst'.trans hst, q.executions.trans hex, q.registry.trans hr⟩
  | event _ hb => exact hb.elim

/-! ## The theorem -/

/-- After complete operations, an execution that runs is the one registered under its name exactly if it
was not started late. When everything has been stopped, what runs and may run on was started late; and
what was started late may run on as before, unless something else comes between. -/
theorem runs_registered_unless_late {h0 h : Host} {late : List ExecutionId} (hf : h0.Fresh)
    (ho : h0.Operated late h) :
    (∀ id e, h.execution? id = some e → e.state = .running →
      (h.registered? e.threadName = some id ↔ id ∉ late)) ∧
    (∀ k, Course Event.Unasked (fun h s => s.step h) h StopAll.start k .done → ∀ id e,
      k.execution? id = some e → e.state = .running → k.keepsRunning e = true → id ∈ late) ∧
    ∀ k, Course (fun _ => False) (fun h s => s.step h) h StopAll.start k .done → ∀ id ∈ late, ∀ e,
      h.execution? id = some e → h.keepsRunning e = true →
      k.execution? id = some e ∧ k.keepsRunning e = true := by
  obtain ⟨ih, hcomp⟩ := orderly_of_operated hf ho
  refine ⟨ih.running, fun k hc id e he hr hk => ?_, fun k hc id hid e he hk => ?_⟩
  · -- were it not late it would be registered, so its flag would be up
    have ihk := (ih.stopping hc).1
    by_contra hn
    have hreg := (ihk.running id e he hr).2 hn
    have hst : k.isStopped e.token = true := pursues_course ih hc e.threadName id e hreg he
    unfold keepsRunning at hk
    rw [hst] at hk
    cases hk
  · obtain ⟨e0, h0, -, hreg⟩ := ih.late id hid
    rw [he, Option.some.injEq] at h0
    subst h0
    have hp : h.Spares e.token .start := by
      refine ⟨hcomp, fun n j x hn hx htok => ?_⟩
      obtain rfl := ih.tokened.distinct j id x e hx he htok
      rw [he, Option.some.injEq] at hx
      subst hx
      -- the registered execution of a name bears the name
      obtain ⟨x, hx, hname⟩ := ih.named n j hn
      rw [he, Option.some.injEq] at hx
      subst hx
      exact hreg (hname ▸ hn)
    obtain ⟨-, hst, hex, -⟩ := spares_course ih.sorted hp hc
    unfold execution? keepsRunning at *
    rw [hex, hst]
    exact ⟨he, hk⟩

/-! ## A late start -/

/-- Fulfilling an order for a caller from outside is one operation. -/
theorem Operated.fulfil {h0 h : Host} {late : List ExecutionId} (ho : h0.Operated late h) (o : Order)
    (starts : Bool) (hs : (h.fulfil o starts).2.isSome = true) : h0.Operated late (h.fulfil o starts).1 := by
  obtain ⟨r, hr⟩ := Option.isSome_iff_exists.1 hs
  obtain ⟨f, f', -, -, hp, hd, hc⟩ := course_fulfil (k := (h.fulfil o starts).1) (Prod.ext rfl hr)
  exact .order ho hp hc hd

/-- Two orders are fulfilled for one name, and then the execution of the first is started. -/
def startedLate : Host := (((plain.fulfil job false).1.fulfil job false).1.start 0).2

theorem operated_startedLate : plain.Operated [0] startedLate := by
  have h0 : plain.Operated [] plain := .start
  have h1 := h0.fulfil job false (by decide +kernel)
  have h2 := h1.fulfil job false (by decide +kernel)
  have hs : ((plain.fulfil job false).1.fulfil job false).1.after? (.start 0) = some startedLate := rfl
  have hl : ((plain.fulfil job false).1.fulfil job false).1.lateStart (.start 0) = [0] := by decide +kernel
  have h3 := h2.event (fun _ _ h => by cases h) hs
  rw [hl] at h3
  exact h3

/-- An execution that runs need not be the one registered, and may run on when everything was stopped. -/
theorem runs_unregistered :
    (¬ ∀ late h, plain.Operated late h → ∀ n id, h.RunsAs n id → h.registered? n = some id) ∧
    ¬ ∀ late h, plain.Operated late h → ∀ n id, h.stopAll.RunsAs n id →
      (h.stopAll.execution? id).all h.stopAll.keepsRunning = false := by
  constructor
  · intro hall
    exact absurd (hall _ _ operated_startedLate "job" 0 (by decide +kernel)) (by decide +kernel)
  · intro hall
    exact absurd (hall _ _ operated_startedLate "job" 0 (by decide +kernel)) (by decide +kernel)

theorem startedLate_unregistered : startedLate.RunsAs "job" 0 ∧ startedLate.registered? "job" ≠ some 0 := by
  have hr : startedLate.RunsAs "job" 0 := by decide +kernel
  refine ⟨hr, ?_⟩
  obtain ⟨e, he, hn, hrun⟩ := hr
  rw [← hn, Ne, (runs_registered_unless_late fresh_plain operated_startedLate).1 0 e he hrun]
  decide

end Host

end Scripting
