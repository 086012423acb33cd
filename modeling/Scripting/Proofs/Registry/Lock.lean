/-
Who builds. Whatever happens, a thread that is between becoming the builder for a name and ceasing to
be it is the one that the table of builders names, so no two threads build for one name.
-/
import Scripting.Proofs.Host.Events

namespace Scripting.Host

/-- Every fulfilment knows its thread, and one that holds the lock of its name is entered there. -/
def Seated (h : Host) : Prop :=
  ∀ (i : ThreadId) (f : Fulfilment), h.threads[i]? = some (.fulfilment f) →
    f.self = i ∧ (f.phase.holdsLock → Assoc.find? f.name h.registry.builders = some i)

theorem seated_after {h h' : Host} {ev : Event} (hs : h.after? ev = some h') (hi : h.Seated) : h'.Seated := by
  rcases after?_orders hs with ⟨hr, -, hq⟩ | ⟨o, starts, rfl, rfl⟩ | ⟨i, f, k, p, rfl, hf, hm, rfl⟩
  · intro j g hg
    rw [hr]
    exact hi j g ((hq j g).1 hg)
  · intro j g hg
    rw [orders_after_arrival] at hg
    split at hg
    · subst hg
      exact ⟨rfl, nofun⟩
    · exact hi j g hg
  · obtain ⟨hself, hlock⟩ := hi i f hf
    intro j g hg
    rw [orders_after_move hf hm] at hg
    split at hg
    · rename_i hj
      subst hj hg
      refine ⟨hself, fun hl => ?_⟩
      rcases hm.builders with ⟨hb, hkeep⟩ | ⟨-, -, -, hb⟩ | ⟨-, -, hn⟩
      · simp only [hb]; exact hlock (hkeep.1 hl)
      · simp only [hb, hself]; exact Assoc.find?_insert_self _ _ _
      · exact absurd hl hn
    · rename_i hj
      obtain ⟨hgself, hglock⟩ := hi j g hg
      refine ⟨hgself, fun hl => ?_⟩
      have hgl := hglock hl
      rcases hm.builders with ⟨hb, -⟩ | ⟨-, hfree, -, hb⟩ | ⟨hfl, hb, -⟩
      · simp only [hb]; exact hgl
      · -- the name was free, so it is not the other's
        have hne : g.name ≠ f.name := by intro he; rw [he, hfree] at hgl; cases hgl
        simp only [hb]
        rw [Assoc.find?_insert_of_ne hne]; exact hgl
      · -- the name was this thread's, so it is not the other's
        have hne : g.name ≠ f.name := by
          intro he
          rw [he, hlock hfl, Option.some.injEq] at hgl
          exact hj hgl.symm
        simp only [hb]
        rw [Assoc.find?_erase_of_ne hne]; exact hgl

/-- Two threads that hold the lock of one name are one. -/
theorem Seated.eq_of_holdsLock {h : Host} (hi : h.Seated) {i j : ThreadId} {f g : Fulfilment}
    (hf : h.threads[i]? = some (.fulfilment f)) (hg : h.threads[j]? = some (.fulfilment g))
    (hn : f.name = g.name) (hlf : f.phase.holdsLock) (hlg : g.phase.holdsLock) : i = j := by
  have h1 := (hi i f hf).2 hlf
  have h2 := (hi j g hg).2 hlg
  rw [hn, h2, Option.some.injEq] at h1
  exact h1.symm

end Scripting.Host
