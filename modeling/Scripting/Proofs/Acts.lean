/-
Acts one after the other. A system that takes one act at a time, and none where the act cannot happen, is led from
a state to every state that a list of acts ends in.
-/
import Mathlib.Logic.Relation

namespace Scripting

theorem leads_of_played {σ α : Type} {step : σ → α → Option σ} {s s' : σ} {acts : List α}
    (hs : acts.foldlM step s = some s') : Relation.ReflTransGen (fun s s' => ∃ a, step s a = some s') s s' := by
  induction acts generalizing s with
  | nil =>
    cases hs
    exact .refl
  | cons a acts ih =>
    rw [List.foldlM_cons] at hs
    obtain ⟨s₁, h₁, hs⟩ := Option.bind_eq_some_iff.1 hs
    exact .head ⟨a, h₁⟩ (ih hs)

end Scripting
