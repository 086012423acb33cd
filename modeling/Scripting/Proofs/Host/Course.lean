/-
Callers from outside. Such a caller makes moves of its own, and between them threads move, time passes
and the surroundings change, in any order. What `Waiter.run` does is one of these courses, so what
holds of all of them holds of the functions that callers use.
-/
import Scripting.Proofs.Host.Events
import Mathlib.Logic.Relation

namespace Scripting.Host

/-- What happens on a host without anybody's asking. -/
def Event.Unasked : Event → Prop
  | .move _ | .elapse _ | .surroundings _ => True
  | _ => False

/-- A host comes to be another by events of a kind. -/
def Passes (between : Event → Prop) : Host → Host → Prop :=
  Relation.ReflTransGen fun h k => ∃ ev, between ev ∧ h.after? ev = some k

/-- What a caller from outside can come to by its own moves, with events of a kind between them. -/
inductive Course (between : Event → Prop) {σ : Type} (step : Host → σ → Option (Host × σ)) (h : Host) (s : σ) :
    Host → σ → Prop
  | start : Course between step h s h s
  | move {k k' : Host} {t t' : σ} : Course between step h s k t → step k t = some (k', t') →
      Course between step h s k' t'
  | event {k k' : Host} {t : σ} {ev : Event} : Course between step h s k t → between ev →
      k.after? ev = some k' → Course between step h s k' t

section

variable {between : Event → Prop} {σ : Type} {step : Host → σ → Option (Host × σ)} {h k k' : Host} {s t t' : σ}

theorem Course.trans (h1 : Course between step h s k t) (h2 : Course between step k t k' t') :
    Course between step h s k' t' := by
  induction h2 with
  | start => exact h1
  | move _ hs ih => exact .move ih hs
  | event _ hb hs ih => exact .event ih hb hs

theorem Course.passes (h1 : Course between step h s k t) (h2 : Passes between k k') :
    Course between step h s k' t := by
  induction h2 with
  | refl => exact h1
  | tail _ hs ih =>
    obtain ⟨ev, hb, hs⟩ := hs
    exact .event ih hb hs

end

/-! ## Threads taking turns -/

theorem passes_step {h k : Host} {i : ThreadId} (hs : h.step i = some k) : Passes Event.Unasked h k :=
  .single ⟨.move i, trivial, hs⟩

theorem passes_elapse (h : Host) (millis : Nat) :
    Passes Event.Unasked h { h with clock := h.clock + millis } :=
  .single ⟨.elapse millis, trivial, rfl⟩

theorem passes_turn (i : ThreadId) (n : Nat) (h : Host) : Passes Event.Unasked h (h.turn i n).2.2 := by
  induction n generalizing h with
  | zero => exact .refl
  | succ n ih =>
    unfold turn
    split
    · exact .refl
    · rename_i k hs
      exact (passes_step hs).trans (ih k)

/-- A fold each of whose steps is a passage is one. -/
theorem passes_foldl {α β : Type} (host : β → Host) (f : β → α → β)
    (hf : ∀ b a, Passes Event.Unasked (host b) (host (f b a))) (l : List α) (b : β) :
    Passes Event.Unasked (host b) (host (l.foldl f b)) := by
  induction l generalizing b with
  | nil => exact .refl
  | cons a l ih => exact (hf b a).trans (ih (f b a))

theorem passes_round (network : Bool) (h : Host) : Passes Event.Unasked h (h.round network).2.2 := by
  unfold round
  refine passes_foldl (fun acc : Bool × Bool × Host => acc.2.2) _ (fun acc i => ?_) _ (false, false, h)
  simp only
  split
  · exact .refl
  · exact passes_turn i turnLength _

theorem passes_settle (n : Nat) (h : Host) : Passes Event.Unasked h (h.settle n).2 := by
  induction n generalizing h with
  | zero => exact .refl
  | succ n ih =>
    have hr := passes_round false h
    unfold settle
    split
    · rename_i k hk; rw [hk] at hr; exact hr
    · rename_i k hk; rw [hk] at hr; exact hr.trans (ih k)
    · rename_i k hk; rw [hk] at hr; exact hr

/-! ## Waiting -/

section

variable {σ : Type} (w : Waiter σ)

theorem course_advance (n : Nat) (h : Host) (s : σ) :
    Course Event.Unasked w.step h s (w.advance n h s).2.1 (w.advance n h s).2.2 := by
  induction n generalizing h s with
  | zero => exact .start
  | succ n ih =>
    unfold Waiter.advance
    split
    · exact .start
    · split
      · exact .start
      · rename_i k t hs
        exact Course.trans (.move .start hs) (ih k t)

theorem course_run (deadline : Option Nat) (n : Nat) (h : Host) (s : σ) :
    Course Event.Unasked w.step h s (w.run deadline n h s).1 (w.run deadline n h s).2 := by
  induction n generalizing h s with
  | zero => exact .start
  | succ n ih =>
    -- the run is taken apart call by call, each with the course that it adds
    have h1 := course_advance w turnLength h s
    unfold Waiter.run
    revert h1
    obtain ⟨busy, h1, s1⟩ := w.advance turnLength h s
    intro h1
    simp only at h1 ⊢
    split
    · exact h1
    · have h2 := h1.passes (passes_settle 1000 _)
      revert h2
      obtain ⟨busy', h2⟩ := settle 1000 _
      intro h2c
      simp only at h2c ⊢
      split
      · have h3 := h2c.passes (passes_elapse h2 turnMillis)
        split
        · exact h3
        · exact h3.trans (ih _ _)
      · have h3 := h2c.trans (course_advance w turnLength h2 s1)
        revert h3
        obtain ⟨-, h3, s3⟩ := w.advance turnLength h2 s1
        intro h3c
        simp only at h3c ⊢
        split
        · exact h3c
        · have h4 := h3c.passes (passes_round true h3)
          split
          · rename_i k hk
            rw [hk] at h4
            exact h4.trans (ih _ _)
          · rename_i k hk
            rw [hk] at h4
            split
            · exact h4
            · -- nothing can move any more, so time passes up to the next deadline
              rename_i t ht
              have h5 : Course Event.Unasked w.step h s { k with clock := max k.clock t } s3 := by
                have := h4.passes (passes_elapse k (max k.clock t - k.clock))
                rw [Nat.add_sub_cancel' (Nat.le_max_left _ _)] at this
                exact this
              split
              · exact (h5.passes (passes_settle 1000 _)).trans (course_advance w _ _ _)
              · exact h5.trans (ih _ _)

theorem course_of_run {w : Waiter σ} {deadline : Option Nat} {n : Nat} {h k : Host} {s t : σ}
    (hr : w.run deadline n h s = (k, t)) : Course Event.Unasked w.step h s k t := by
  have hc := course_run w deadline n h s
  rw [hr] at hc
  exact hc

end

/-- An order that a caller from outside has fulfilled was fulfilled by moves of its own. -/
theorem course_fulfil {h k : Host} {o : Order} {starts : Bool} {r : Except OrderError ExecutionId}
    (hs : h.fulfil o starts = (k, some r)) :
    ∃ f f' : Fulfilment, f.order = o ∧ f.starts = starts ∧ f.phase = .lookUp ∧ f'.phase = .done r ∧
      Course Event.Unasked (fun h f => f.step h) h f k f' := by
  unfold fulfil at hs
  simp only at hs
  split at hs
  · rename_i k' self order starts' r' hrun
    cases hs
    exact ⟨_, _, rfl, rfl, rfl, rfl, course_of_run hrun⟩
  · cases hs

end Scripting.Host
