/-
Routines on their way. A routine that is carried out while anything else happens comes to an end that some
dialogue leads to, and one routine after another is carried out one after the other: there is a moment at
which the first is at its end and the second begins.
-/
import Scripting.Proofs.Dialogue
import Scripting.Proofs.Host.Course
import Scripting.Proofs.Registry.Tokens

namespace Scripting.Host

variable {α β : Type} {seat : Seat} {h h' k : Host} {p : Routine α} {a : α}

/-- What a routine on its way has still to come to. -/
def Ahead (a : α) : Activity α → Prop
  | .going p => ∃ said, p.Ends said a
  | .polling _ resume => ∃ m said, (resume m).Ends said a
  | .done b => b = a

theorem Ahead.of_step {act act' : Activity α} (hs : act.step seat h = some (h', act')) (ha : Ahead a act') :
    Ahead a act := by
  unfold Activity.step at hs
  split at hs
  · cases hs
  · cases hs
    exact ⟨[], (ha : _ = a) ▸ .done _⟩
  · cases hs
    obtain ⟨m, said, hends⟩ := ha
    exact ⟨_, .ask hends⟩
  · obtain ⟨⟨r, k⟩, hr, hs⟩ := Option.map_eq_some_iff.1 hs
    cases hs
    obtain ⟨said, hends⟩ := ha
    exact ⟨_, .ask hends⟩
  · split at hs
    · cases hs
      obtain ⟨said, hends⟩ := ha
      exact ⟨_, said, hends⟩
    · obtain ⟨⟨k, poll⟩, hr, hs⟩ := Option.map_eq_some_iff.1 hs
      cases hs
      exact ha

/-! ## Flags -/

theorem isStopped_of_passes {between : Event → Prop} {t : TokenId} (hp : Passes between h k)
    (ht : h.isStopped t = true) : k.isStopped t = true := by
  induction hp with
  | refl => exact ht
  | tail _ hs ih =>
    obtain ⟨ev, -, hs⟩ := hs
    exact after?_flags hs ih

/-! ## Courses from their first move -/

/-- A caller that gets anywhere makes a first move, before and after which anything may happen. -/
theorem Course.first {between : Event → Prop} {σ : Type} {step : Host → σ → Option (Host × σ)} {s t : σ}
    (hc : Course between step h s k t) :
    t = s ∧ Passes between h k ∨
      ∃ h1 k1 s1, Passes between h h1 ∧ step h1 s = some (k1, s1) ∧ Course between step k1 s1 k t := by
  induction hc with
  | start => exact .inl ⟨rfl, .refl⟩
  | move _ hs ih =>
    rcases ih with ⟨rfl, hp⟩ | ⟨h1, k1, s1, hp, hf, hc⟩
    · exact .inr ⟨_, _, _, hp, hs, .start⟩
    · exact .inr ⟨h1, k1, s1, hp, hf, .move hc hs⟩
  | event _ hb hs ih =>
    rcases ih with ⟨ht, hp⟩ | ⟨h1, k1, s1, hp, hf, hc⟩
    · exact .inl ⟨ht, hp.tail ⟨_, hb, hs⟩⟩
    · exact .inr ⟨h1, k1, s1, hp, hf, .event hc hb hs⟩

section

variable {between : Event → Prop}

/-- A routine that is at its end stays there, and nothing of what happens is its doing. -/
theorem Course.of_done {b : α} (hc : Course between (Activity.step seat) h (.going (.done a)) k (.done b)) :
    b = a ∧ Passes between h k := by
  rcases hc.first with ⟨heq, -⟩ | ⟨h1, k1, s1, hp, hs, hc⟩
  · cases heq
  · cases hs
    rcases hc.first with ⟨heq, hp'⟩ | ⟨_, _, _, _, hs, _⟩
    · cases heq
      exact ⟨rfl, hp.trans hp'⟩
    · cases hs

/-- A look at a stop flag is answered as the flag is at that moment. -/
theorem Course.of_isStopped {t : TokenId} {f : Bool → Routine α}
    (hc : Course between (Activity.step seat) h (.going (Routine.demand (.isStopped t) >>= f)) k (.done a)) :
    ∃ h1, Passes between h h1 ∧
      Course between (Activity.step seat) h1 (.going (f (h1.isStopped t))) k (.done a) := by
  rcases hc.first with ⟨heq, -⟩ | ⟨h1, k1, s1, hp, hs, hc⟩
  · cases heq
  · cases hs
    exact ⟨h1, hp, hc⟩

/-! ## One routine after another -/

/-- What a routine on its way is, if another follows it. -/
def followed (f : α → Routine β) : Activity α → Activity β
  | .going p => .going (p >>= f)
  | .polling poll resume => .polling poll fun m => resume m >>= f
  | .done a => .going (f a)

/-- A routine on its way is not at its end. -/
def IsUnderway : Activity α → Prop
  | .going (.done _) | .done _ => False
  | _ => True

/-- What is asked for is served in one move, but for a wait. -/
theorem step_ask {d : Demand} (hd : ∀ channel wait, d ≠ .await channel wait) (resume : d.Answer → Routine α) :
    (Activity.going (.ask d resume)).step seat h = (h.serve seat d).map fun (r, h) => (h, .going (resume r)) := by
  cases d with
  | await channel wait => exact absurd rfl (hd channel wait)
  | channel | post | poll | request | openStream | send | close | currentThread | shapes | isStopped | stop | log
  | yield => rfl

/-- While a routine is under way, it moves as if nothing followed it. -/
theorem step_followed (f : α → Routine β) {act : Activity α} (hu : IsUnderway act) :
    (followed f act).step seat h = (act.step seat h).map fun (h, act) => (h, followed f act) := by
  cases act with
  | done a => exact hu.elim
  | going p =>
    cases p with
    | done a => exact hu.elim
    | ask d resume =>
      by_cases hd : ∃ channel wait, d = .await channel wait
      · obtain ⟨channel, wait, rfl⟩ := hd
        rfl
      · have hd : ∀ channel wait, d ≠ .await channel wait := fun channel wait h => hd ⟨channel, wait, h⟩
        rw [step_ask hd, Option.map_map]
        exact step_ask hd fun r => resume r >>= f
  | polling poll resume =>
    unfold followed
    simp only [Activity.step]
    cases poll.result? with
    | some m => rfl
    | none =>
      simp only [Option.map_map]
      rfl

/-- A routine under way does not come to rest in one move. -/
theorem ne_done_of_step {act act' : Activity α} (hu : IsUnderway act) (hs : act.step seat h = some (k, act')) (a : α) :
    act' ≠ .done a := by
  rintro rfl
  cases act with
  | done a => exact hu
  | going q =>
    cases q with
    | done a => exact hu
    | ask d resume =>
      by_cases hd : ∃ channel wait, d = .await channel wait
      · obtain ⟨channel, wait, rfl⟩ := hd
        cases hs
      · rw [step_ask fun channel wait h => hd ⟨channel, wait, h⟩] at hs
        obtain ⟨x, -, hx⟩ := Option.map_eq_some_iff.1 hs
        cases hx
  | polling poll resume =>
    simp only [Activity.step] at hs
    split at hs
    · cases hs
    · obtain ⟨x, -, hx⟩ := Option.map_eq_some_iff.1 hs
      cases hx

/-- Where a routine that another follows has got to: it is still under way, or there was a moment at which it
was at its end and the other began. -/
theorem Course.followed {f : α → Routine β} {b : Activity β}
    (hc : Course between (Activity.step seat) h (.going (p >>= f)) k b) :
    (∃ act, Course between (Activity.step seat) h (.going p) k act ∧ IsUnderway act ∧ b = Host.followed f act) ∨
    ∃ k1 a, Course between (Activity.step seat) h (.going p) k1 (.going (.done a)) ∧
      Course between (Activity.step seat) k1 (.going (f a)) k b := by
  -- wherever the first routine is, it is under way or at its end
  have place {k : Host} {act : Activity α} (hact : Course between (Activity.step seat) h (.going p) k act)
      (hnd : ∀ a, act ≠ .done a) :
      (∃ act', Course between (Activity.step seat) h (.going p) k act' ∧ IsUnderway act' ∧
        Host.followed f act = Host.followed f act') ∨
      ∃ k1 a, Course between (Activity.step seat) h (.going p) k1 (.going (.done a)) ∧
        Course between (Activity.step seat) k1 (.going (f a)) k (Host.followed f act) := by
    cases act with
    | going q =>
      cases q with
      | done a => exact .inr ⟨k, a, hact, .start⟩
      | ask d resume => exact .inl ⟨_, hact, trivial, rfl⟩
    | polling poll resume => exact .inl ⟨_, hact, trivial, rfl⟩
    | done a => exact absurd rfl (hnd a)
  induction hc with
  | start => exact place .start nofun
  | move _ hs ih =>
    rcases ih with ⟨act, hact, hu, rfl⟩ | ⟨k1, a, h1, h2⟩
    · rw [step_followed f hu] at hs
      obtain ⟨⟨k', act'⟩, hs', heq⟩ := Option.map_eq_some_iff.1 hs
      cases heq
      exact place (.move hact hs') (ne_done_of_step hu hs')
    · exact .inr ⟨k1, a, h1, .move h2 hs⟩
  | event _ hb hs ih =>
    rcases ih with ⟨act, hact, hu, heq⟩ | ⟨k1, a, h1, h2⟩
    · exact .inl ⟨act, .event hact hb hs, hu, heq⟩
    · exact .inr ⟨k1, a, h1, .event h2 hb hs⟩

/-- Two routines that come to their end do so one after the other. -/
theorem Course.of_bind {f : α → Routine β} {b : β}
    (hc : Course between (Activity.step seat) h (.going (p >>= f)) k (.done b)) :
    ∃ k1 a, Course between (Activity.step seat) h (.going p) k1 (.going (.done a)) ∧
      Course between (Activity.step seat) k1 (.going (f a)) k (.done b) := by
  rcases hc.followed with ⟨act, -, hu, heq⟩ | hlater
  · cases act with
    | going | polling => cases heq
    | done a => exact hu.elim
  · exact hlater

/-- A routine comes only to ends that some dialogue leads to. -/
theorem Course.ahead {act act' : Activity α} (hc : Course between (Activity.step seat) h act k act') (ha : Ahead a act') :
    Ahead a act := by
  induction hc with
  | start => exact ha
  | move _ hs ih => exact ih (ha.of_step hs)
  | event _ _ _ ih => exact ih ha

theorem Course.ends (hc : Course between (Activity.step seat) h (.going p) k (.going (.done a))) :
    ∃ said, p.Ends said a := hc.ahead ⟨[], .done a⟩

end

/-! ## Carrying out -/

/-- Somebody who only moves a routine on. -/
def mover (α : Type) (seat : Seat) : Waiter (Activity α) where
  step := Activity.step seat
  isDone := fun _ _ => false
  wakesAt? := fun _ => none

/-- Carries out a routine on a host where nothing else happens, in so many moves. -/
def carriedOut (seat : Seat) (n : Nat) (h : Host) (p : Routine α) : Option (Host × α) :=
  match ((mover α seat).advance n h (.going p)).2 with
  | (k, .done a) => some (k, a)
  | _ => none

theorem course_of_carriedOut {n : Nat} (hs : carriedOut seat n h p = some (k, a)) :
    Course Event.Unasked (Activity.step seat) h (.going p) k (.done a) := by
  unfold carriedOut at hs
  split at hs
  · rename_i k' a' hadv
    cases hs
    have hc := course_advance (mover α seat) n h (.going p)
    rw [hadv] at hc
    exact hc
  · cases hs

end Scripting.Host
