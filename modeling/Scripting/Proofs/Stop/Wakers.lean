/-
The wakers of a stop token, over every run of its operations. All clones of a token are one token here,
and what a waker does while it is run are moves like any others, which come before the request goes on to
the next waker. So a run covers wakers that register, drop and request as they like.

The first request runs the wakers whose guards are alive at that moment, each once, and no request runs
any other (`wakers_run_once`). What carries the proof is `Course`: the wakers of the token are those whose
guards are alive after the moves so far.
-/
import Scripting.Host.Step
import Scripting.Proofs.Assoc

namespace Scripting.StopToken

variable {ω : Type}

/-! ## Runs -/

/-- What is done to a token. -/
inductive Move (ω : Type) where
  /-- Registers a waker; its guard has the number that is next. -/
  | onStop (waker : ω)
  /-- Drops the guard with a number. -/
  | drop (guard : Nat)
  | request
  /-- Looks whether the flag is up. -/
  | check
  /-- The request that is on its way runs the next of its wakers. -/
  | wake

/-- A token and how far its requests have come. -/
structure Stage (ω : Type) where
  token : StopToken ω := {}
  /-- The wakers that are to be run, in order. -/
  pending : List ω := []
  /-- The wakers that were run, oldest first. -/
  ran : List ω := []

/-- One move; a request that has no waker left has nothing to run. -/
def Stage.step (s : Stage ω) : Move ω → Option (Stage ω)
  | .onStop w => some { s with token := (s.token.onStop w).1 }
  | .drop k => some { s with token := s.token.drop k }
  | .request => some { s with token := s.token.request.1, pending := s.token.request.2 ++ s.pending }
  | .check => some s
  | .wake =>
    match s.pending with
    | [] => none
    | w :: rest => some { s with pending := rest, ran := s.ran ++ [w] }

/-- The wakers that a request has taken on. -/
def Stage.called (s : Stage ω) : List ω := s.ran ++ s.pending

/-- How many wakers were registered: the number of the next guard. -/
def registrations : List (Move ω) → Nat
  | [] => 0
  | .onStop _ :: rest => registrations rest + 1
  | _ :: rest => registrations rest

/-- The guard with a number is alive after some moves, and this is its waker. -/
def Alive (moves : List (Move ω)) (k : Nat) (w : ω) : Prop :=
  ∃ before after, moves = before ++ .onStop w :: after ∧ registrations before = k ∧ .drop k ∉ after

/-- A stop was requested. -/
def asked (moves : List (Move ω)) : Bool := moves.any fun | .request => true | _ => false

/-! ## One move more -/

theorem registrations_append (moves more : List (Move ω)) :
    registrations (moves ++ more) = registrations moves + registrations more := by
  induction moves with
  | nil => exact (Nat.zero_add _).symm
  | cons m rest ih =>
    cases m with
    | onStop w =>
      show registrations (rest ++ more) + 1 = registrations rest + 1 + registrations more
      omega
    | drop | request | check | wake => exact ih

theorem asked_append (moves more : List (Move ω)) : asked (moves ++ more) = (asked moves || asked more) :=
  List.any_append

/-- Where a move stands in a list that one more is put behind: it is that one, or stands before it. -/
theorem append_singleton_eq_iff {α : Type} {l front rest : List α} {a x : α} :
    l ++ [a] = front ++ x :: rest ↔
      (rest = [] ∧ l = front ∧ a = x) ∨ ∃ rest', rest = rest' ++ [a] ∧ l = front ++ x :: rest' := by
  constructor
  · intro h
    rcases List.eq_nil_or_concat rest with rfl | ⟨rest', b, rfl⟩
    · obtain ⟨rfl, hx⟩ := List.append_inj' h rfl
      exact .inl ⟨rfl, rfl, List.head_eq_of_cons_eq hx⟩
    · have h : l ++ [a] = (front ++ x :: rest') ++ [b] := by rw [h]; simp
      obtain ⟨rfl, hb⟩ := List.append_inj' h rfl
      obtain rfl : a = b := List.head_eq_of_cons_eq hb
      exact .inr ⟨rest', by simp, rfl⟩
  · rintro (⟨rfl, rfl, rfl⟩ | ⟨rest', rfl, rfl⟩)
    · rfl
    · simp

theorem not_alive_nil (k : Nat) (w : ω) : ¬ Alive [] k w := by
  rintro ⟨before, after, h, -⟩
  simp at h

theorem alive_append_iff {moves : List (Move ω)} {m : Move ω} {k : Nat} {w : ω} :
    Alive (moves ++ [m]) k w ↔ (m = .onStop w ∧ registrations moves = k) ∨ (Alive moves k w ∧ m ≠ .drop k) := by
  constructor
  · rintro ⟨before, after, h, hk, hafter⟩
    rcases append_singleton_eq_iff.1 h with ⟨rfl, rfl, rfl⟩ | ⟨after, rfl, rfl⟩
    · exact .inl ⟨rfl, hk⟩
    · rw [List.mem_append, List.mem_singleton, not_or] at hafter
      exact .inr ⟨⟨before, after, rfl, hk, hafter.1⟩, fun h => hafter.2 h.symm⟩
  · rintro (⟨rfl, hk⟩ | ⟨⟨before, after, rfl, hk, hafter⟩, hm⟩)
    · exact ⟨moves, [], rfl, hk, nofun⟩
    · refine ⟨before, after ++ [m], by simp, hk, ?_⟩
      rw [List.mem_append, List.mem_singleton, not_or]
      exact ⟨hafter, fun h => hm h.symm⟩

/-! ## The guards -/

/-- The wakers of a token are those whose guards are alive after some moves. -/
structure Registered (moves : List (Move ω)) (t : StopToken ω) : Prop where
  next : t.nextWaker = registrations moves
  ordered : Assoc.Ascending t.wakers
  /-- No guard has a number that is still to be given. -/
  below : ∀ k ∈ Assoc.keys t.wakers, k < t.nextWaker
  alive : ∀ k w, (k, w) ∈ t.wakers ↔ Alive moves k w

section

variable {moves : List (Move ω)} {t t' : StopToken ω} {m : Move ω}

theorem Registered.onStop (h : Registered moves t) (w : ω) : Registered (moves ++ [.onStop w]) (t.onStop w).1 where
  next := by
    rw [registrations_append, ← h.next]
    rfl
  ordered := Assoc.ascending_insert h.ordered _ _
  below k hk := by
    rcases Assoc.mem_keys_insert.1 hk with rfl | hk
    · exact Nat.lt_succ_self _
    · exact Nat.lt_succ_of_lt (h.below k hk)
  alive k w' := by
    have hnew : t.nextWaker ∉ Assoc.keys t.wakers := fun hk => Nat.lt_irrefl _ (h.below _ hk)
    have hmem : (k, w') ∈ Assoc.insert t.nextWaker w t.wakers ↔ (k, w') = (t.nextWaker, w) ∨ (k, w') ∈ t.wakers :=
      (Assoc.insert_perm hnew w).mem_iff.trans List.mem_cons
    rw [alive_append_iff, ← h.alive, ← h.next]
    refine hmem.trans (or_congr ?_ ?_)
    · simp [eq_comm, and_comm]
    · simp

theorem Registered.drop (h : Registered moves t) (k : Nat) : Registered (moves ++ [.drop k]) (t.drop k) where
  next := by
    rw [registrations_append, ← h.next]
    rfl
  ordered := Assoc.ascending_erase h.ordered k
  below l hl := by
    obtain ⟨e, he, rfl⟩ := List.mem_map.1 hl
    exact h.below _ (List.mem_map_of_mem (Assoc.mem_erase.1 he).1)
  alive l w := by
    rw [alive_append_iff, ← h.alive]
    refine Assoc.mem_erase.trans ?_
    simp [eq_comm]

/-- Every other move leaves the guards as they are. -/
theorem Registered.other (h : Registered moves t) (hreg : ∀ w, m ≠ .onStop w) (hdrop : ∀ k, m ≠ .drop k)
    (hwakers : t'.wakers = t.wakers) (hnext : t'.nextWaker = t.nextWaker) : Registered (moves ++ [m]) t' where
  next := by
    rw [registrations_append, hnext, h.next]
    cases m with
    | onStop w => exact absurd rfl (hreg w)
    | drop | request | check | wake => rfl
  ordered := hwakers ▸ h.ordered
  below := by
    rw [hwakers, hnext]
    exact h.below
  alive k w := by
    rw [hwakers, h.alive, alive_append_iff]
    constructor
    · exact fun ha => .inr ⟨ha, hdrop k⟩
    · exact fun ha => (ha.resolve_left fun hm => hreg w hm.1).1

end

/-! ## The course of a run -/

/-- Wakers in a row are those whose guards are alive after some moves, each once. -/
def Roll (front : List (Move ω)) (wakers : List ω) : Prop :=
  ∃ row : List (Nat × ω), (row.map Prod.fst).Nodup ∧ (∀ k w, (k, w) ∈ row ↔ Alive front k w) ∧
    wakers = row.map Prod.snd

/-- What holds after every list of moves. -/
structure Course (moves : List (Move ω)) (s : Stage ω) : Prop where
  registered : Registered moves s.token
  stopped : s.token.stopped = asked moves
  cancelled : s.token.cancelled = asked moves
  quiet : asked moves = false → s.called = []
  /-- The wakers that were called are those of the first request. -/
  first : ∀ front rest, moves = front ++ .request :: rest → asked front = false → Roll front s.called

theorem course_fresh : Course [] ({} : Stage ω) where
  registered := ⟨rfl, Assoc.ascending_nil, nofun, fun k w => iff_of_false nofun (not_alive_nil k w)⟩
  stopped := rfl
  cancelled := rfl
  quiet _ := rfl
  first front rest h := by simp at h

section

variable {moves : List (Move ω)} {s s' : Stage ω} {m : Move ω}

/-- A move moves no flag and calls nobody, unless it is the first request. -/
theorem Course.aside (h : Course moves s) (hm : m = .request → asked moves = true)
    (hregistered : Registered (moves ++ [m]) s'.token) (hstopped : s'.token.stopped = s.token.stopped)
    (hcancelled : s'.token.cancelled = s.token.cancelled) (hcalled : s'.called = s.called) :
    Course (moves ++ [m]) s' := by
  have hasked : asked (moves ++ [m]) = asked moves := by
    rw [asked_append]
    cases m with
    | request => rw [hm rfl, Bool.true_or]
    | onStop | drop | check | wake => exact Bool.or_false _
  refine ⟨hregistered, ?_, ?_, ?_, ?_⟩
  · rw [hstopped, h.stopped, hasked]
  · rw [hcancelled, h.cancelled, hasked]
  · rw [hasked, hcalled]
    exact h.quiet
  · intro front rest hmoves hfirst
    rw [hcalled]
    rcases append_singleton_eq_iff.1 hmoves with ⟨-, rfl, hrequest⟩ | ⟨rest', -, hmoves⟩
    · rw [hm hrequest] at hfirst
      cases hfirst
    · exact h.first front rest' hmoves hfirst

/-- The first request raises the flags and calls the wakers that are registered. -/
theorem Course.request (h : Course moves s) (hfirst : asked moves = false) : Course (moves ++ [.request])
    { s with token := { s.token with stopped := true, cancelled := true },
             pending := s.token.wakers.map Prod.snd ++ s.pending } := by
  have hasked : asked (moves ++ [.request]) = true := by
    rw [asked_append]
    exact Bool.or_true _
  obtain ⟨hran, hpending⟩ := List.append_eq_nil_iff.1 (h.quiet hfirst)
  refine ⟨h.registered.other nofun nofun rfl rfl, hasked.symm, hasked.symm, fun hnone => ?_, ?_⟩
  · rw [hasked] at hnone
    cases hnone
  · intro front rest hmoves hfront
    rcases append_singleton_eq_iff.1 hmoves with ⟨-, rfl, -⟩ | ⟨rest', -, rfl⟩
    · refine ⟨s.token.wakers, h.registered.ordered.nodup, h.registered.alive, ?_⟩
      unfold Stage.called
      rw [hran, hpending, List.nil_append, List.append_nil]
    · -- there was no request before
      rw [asked_append] at hfirst
      simp [asked] at hfirst

theorem Course.step (h : Course moves s) (hs : s.step m = some s') : Course (moves ++ [m]) s' := by
  cases m with
  | onStop w =>
    cases hs
    exact h.aside nofun (h.registered.onStop w) rfl rfl rfl
  | drop k =>
    cases hs
    exact h.aside nofun (h.registered.drop k) rfl rfl rfl
  | request =>
    cases hs
    cases hasked : asked moves with
    | true =>
      have hagain : s.token.request = (s.token, []) := if_pos (h.stopped.trans hasked)
      rw [hagain]
      exact h.aside (fun _ => hasked) (h.registered.other nofun nofun rfl rfl) rfl rfl rfl
    | false =>
      have hdown : ¬ s.token.stopped = true := by rw [h.stopped, hasked]; exact Bool.false_ne_true
      have hfirst : s.token.request =
          ({ s.token with stopped := true, cancelled := true }, s.token.wakers.map Prod.snd) := if_neg hdown
      rw [hfirst]
      exact h.request hasked
  | check =>
    cases hs
    exact h.aside nofun (h.registered.other nofun nofun rfl rfl) rfl rfl rfl
  | wake =>
    unfold Stage.step at hs
    simp only at hs
    split at hs <;> cases hs
    rename_i w rest hp
    refine h.aside nofun (h.registered.other nofun nofun rfl rfl) rfl rfl ?_
    unfold Stage.called
    rw [hp, List.append_assoc]
    rfl

theorem course_of_played (hs : moves.foldlM Stage.step ({} : Stage ω) = some s) : Course moves s := by
  induction moves using List.reverseRecOn generalizing s with
  | nil =>
    cases hs
    exact course_fresh
  | append_singleton moves m ih =>
    rw [List.foldlM_append] at hs
    obtain ⟨s₁, h₁, hs⟩ := Option.bind_eq_some_iff.1 hs
    rw [List.foldlM_cons] at hs
    obtain ⟨s₂, h₂, hs⟩ := Option.bind_eq_some_iff.1 hs
    cases hs
    exact (ih h₁).step h₂

/-- A request comes to its end: the wakers that it has called are run one after the other. -/
theorem exists_wakes (s : Stage ω) : ∃ s', (List.replicate s.pending.length .wake).foldlM Stage.step s = some s' ∧
    s'.token = s.token ∧ s'.pending = [] ∧ s'.ran = s.called := by
  obtain ⟨token, pending, ran⟩ := s
  induction pending generalizing ran with
  | nil => exact ⟨_, rfl, rfl, rfl, (List.append_nil ran).symm⟩
  | cons w rest ih =>
    obtain ⟨s', hs', htoken, hpending, hran⟩ := ih (ran ++ [w])
    refine ⟨s', hs', htoken, hpending, hran.trans ?_⟩
    exact List.append_assoc ran [w] rest

end

/-! ## What contexts see -/

/-- A token as a host has it, where every waker is a channel. -/
def named (t : StopToken ω) (name : ω → WokenChannel) : StopToken WokenChannel where
  stopped := t.stopped
  cancelled := t.cancelled
  wakers := t.wakers.map fun e => (e.1, name e.2)
  nextWaker := t.nextWaker

theorem isStopped_of_named {t : StopToken ω} {name : ω → WokenChannel} {h : Host} {k : TokenId}
    (hk : h.token? k = some (t.named name)) : h.isStopped k = t.stopped := by
  unfold Host.isStopped
  rw [hk]
  rfl

/-- **Every waker once.** In every run of a new token, the first request calls the wakers whose guards are
alive at that moment, each once, and nobody else is ever called: not by a later request, and not where a
guard was dropped before or came later. Nobody is called before a request, and a request that is on its way
runs all that it has called. A guard has a number of its own, the wakers of the token are those of the
guards that are alive, and to drop a guard takes away its waker and no other. The flag and the cancellation
are up exactly if a stop was requested, and every context over the token sees it: a safe point fails from
the first request on and not before. -/
theorem wakers_run_once {moves : List (Move ω)} {s : Stage ω} (hs : moves.foldlM Stage.step {} = some s) :
    ((∀ front rest, moves = front ++ .request :: rest → asked front = false → Roll front s.called) ∧
      (asked moves = false → s.called = []) ∧
      ∃ s', (List.replicate s.pending.length .wake).foldlM Stage.step s = some s' ∧
        s'.token = s.token ∧ s'.pending = [] ∧ s'.ran = s.called) ∧
    ((∀ w, (s.token.onStop w).2 = registrations moves) ∧
      (∀ k w, (k, w) ∈ s.token.wakers ↔ Alive moves k w) ∧
      ∀ k l w, (l, w) ∈ (s.token.drop k).wakers ↔ Alive moves l w ∧ l ≠ k) ∧
    (s.token.stopped = asked moves ∧ s.token.cancelled = asked moves) ∧
    ∀ (name : ω → WokenChannel) (h : Host) (seat : Seat) (c : Context), h.token? c.token = some (s.token.named name) →
      Activity.step seat h (.going c.isStopped) = some (h, .going (.done (asked moves))) ∧
      Activity.step seat h (.going c.checkpoint) =
        some (h, .going (.done (if asked moves then .error .stopped else .ok ()))) := by
  have hcourse := course_of_played hs
  refine ⟨⟨hcourse.first, hcourse.quiet, exists_wakes s⟩,
    ⟨fun w => hcourse.registered.next, hcourse.registered.alive, fun k l w => ?_⟩,
    ⟨hcourse.stopped, hcourse.cancelled⟩, fun name h seat c hc => ?_⟩
  · rw [← hcourse.registered.alive]
    exact Assoc.mem_erase
  · have hseen : h.isStopped c.token = asked moves := (isStopped_of_named hc).trans hcourse.stopped
    rw [← hseen]
    exact ⟨rfl, rfl⟩

/-- The first of two wakers registers a third, drops the guard of the second and requests a stop again: the
second is run all the same, once, and the third is not. -/
theorem meddling_waker :
    let moves : List (Move String) := [.onStop "a", .onStop "dropped", .onStop "b", .drop 1, .request,
      .wake, .onStop "late", .drop 2, .request, .wake, .request]
    ∃ s, moves.foldlM Stage.step {} = some s ∧ s.ran = ["a", "b"] ∧ Roll (moves.take 4) s.called ∧
      ∀ k w, (k, w) ∈ s.token.wakers ↔ Alive moves k w := by
  intro moves
  have hs : moves.foldlM Stage.step {} =
      some { token := ⟨true, true, [(0, "a"), (3, "late")], 4⟩, pending := [], ran := ["a", "b"] } := rfl
  obtain ⟨⟨hfirst, -⟩, ⟨-, halive, -⟩, -⟩ := wakers_run_once hs
  exact ⟨_, hs, rfl, hfirst (moves.take 4) (moves.drop 5) rfl rfl, halive⟩

end Scripting.StopToken
