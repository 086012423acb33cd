/-
How deep a value may be nested that a script hands to its host. The objects of a script form a graph, with
shared parts and cycles, so a value has no depth of its own; what counts is how many steps can be made inwards
from it. The reader follows each chain of steps on its own and gives up on the first that is too long, and a
cycle has chains of every length. Records of the host are not entered, and what an object holds under the name
that tells its type is not a part of it.
-/
import Scripting.Js.Evaluation
import Scripting.Proofs.Dialogue
import Scripting.Proofs.Js.Heap
import Mathlib.Tactic.ByContra

namespace Scripting.Js

/-! ## Steps inwards -/

namespace Heap

/-- A value stands directly inside another: as an item of an array, where one that is left out is undefined, or
under a visible name of a plain object other than the one that tells types. -/
inductive Inside (h : Heap) : Value → Value → Prop
  | item {id : ObjectId} {items : Array (Option Value)} {item : Option Value} :
      (h.object id).sort = .array items → item ∈ items → Inside h (.object id) (item.getD .undefined)
  | property {id : ObjectId} {name : String} {x : Value} : (h.object id).sort = .plain → name ∈ h.ownNames id →
      name ≠ Exported.typeMember → h.ownContent? id name = some (.data x) → Inside h (.object id) x

/-- So many steps inwards lead from a value to another. -/
inductive Leads (h : Heap) : Nat → Value → Value → Prop
  | here (v : Value) : Leads h 0 v v
  | inwards {n : Nat} {v w u : Value} : h.Inside v w → Leads h n w u → Leads h (n + 1) v u

/-- So many steps inwards can be made from a value. -/
def IsDeep (h : Heap) (n : Nat) (v : Value) : Prop := ∃ u, h.Leads n v u

variable {h h' : Heap} {n k : Nat} {v w u : Value}

/-- Steps lead into plain objects and arrays only. -/
theorem Inside.sort (hi : h.Inside v w) : ∃ id, v = .object id ∧
    ((h.object id).sort = .plain ∨ ∃ items, (h.object id).sort = .array items) := by
  cases hi with
  | item hs _ => exact ⟨_, rfl, .inr ⟨_, hs⟩⟩
  | property hs _ _ _ => exact ⟨_, rfl, .inl hs⟩

theorem Leads.trans (hl : h.Leads n v w) (hl' : h.Leads k w u) : h.Leads (n + k) v u := by
  induction hl with
  | here v =>
    rw [Nat.zero_add]
    exact hl'
  | @inwards n v x w hi _ ih =>
    rw [Nat.add_right_comm]
    exact .inwards hi (ih hl')

/-- A chain of steps starts with a shorter one. -/
theorem Leads.front (hl : h.Leads n v u) (hk : k ≤ n) : h.IsDeep k v := by
  induction hl generalizing k with
  | here v => exact ⟨v, Nat.le_zero.1 hk ▸ .here v⟩
  | @inwards n v w u hi _ ih =>
    cases k with
    | zero => exact ⟨v, .here v⟩
    | succ k =>
      obtain ⟨x, hx⟩ := ih (Nat.le_of_succ_le_succ hk)
      exact ⟨x, .inwards hi hx⟩

/-- Heaps that differ only in what stands under the name that tells types and in the contents of records. -/
structure AlikeInside (h h' : Heap) : Prop where
  array : ∀ id items, (h.object id).sort = .array items ↔ (h'.object id).sort = .array items
  plain : ∀ id, (h.object id).sort = .plain ↔ (h'.object id).sort = .plain
  visible : ∀ id, ∀ name ≠ Exported.typeMember, name ∈ h.ownNames id ↔ name ∈ h'.ownNames id
  own : ∀ id, ∀ name ≠ Exported.typeMember, h.ownContent? id name = h'.ownContent? id name

theorem AlikeInside.symm (ha : h.AlikeInside h') : h'.AlikeInside h where
  array id items := (ha.array id items).symm
  plain id := (ha.plain id).symm
  visible id name hne := (ha.visible id name hne).symm
  own id name hne := (ha.own id name hne).symm

theorem AlikeInside.leads (ha : h.AlikeInside h') (hl : h.Leads n v u) : h'.Leads n v u := by
  induction hl with
  | here v => exact .here v
  | inwards hi _ ih =>
    refine .inwards ?_ ih
    cases hi with
    | item hs hmem => exact .item ((ha.array _ _).1 hs) hmem
    | property hs hname hne hown =>
      exact .property ((ha.plain _).1 hs) ((ha.visible _ _ hne).1 hname) hne (ha.own _ _ hne ▸ hown)

/-- The plain objects that a value leads to hold nothing but values, and what tells their types is no getter
either; in the texts that it leads to, no half of a character stands alone. -/
structure PlainFrom (h : Heap) (v : Value) : Prop where
  plain : ∀ n id, h.Leads n v (.object id) → (h.object id).sort = .plain →
    (h.object id).IsData ∧ ∀ f, h.find? id Exported.typeMember ≠ some (.getter f)
  whole : ∀ n t, ¬ h.Leads n v (.broken t)

theorem PlainFrom.inside (hp : h.PlainFrom v) (hi : h.Inside v w) : h.PlainFrom w where
  plain n id hl := hp.plain (n + 1) id (.inwards hi hl)
  whole n t hl := hp.whole (n + 1) t (.inwards hi hl)

end Heap

/-! ## Runs that may find a value too deep -/

namespace Run

variable {α β : Type} {ev : Evaluator} {m : Machine}

/-- A run asks its host for nothing and throws that a value is nested too deep. -/
def FindsTooDeep (p : Run α) (m : Machine) : Prop :=
  ∃ error heap, m.heap.allocateError .typeError "value nested deeper than 64 levels (cyclic?)" = (error, heap) ∧
    p.Ends m [] (.error (.thrown (.object error))) { m with heap }

/-- A run asks its host for nothing, and gives a value and leaves the machine as it is, except where it finds a
value too deep. -/
structure GivesUnless (p : Run α) (m : Machine) (deep : Prop) : Prop where
  gives : ¬ deep → ∃ a, p.Ends m [] (.ok a) m
  fails : deep → p.FindsTooDeep m

namespace GivesUnless

variable {p : Run α} {f : α → Run β} {deep deep' : Prop}

theorem congr (hp : p.GivesUnless m deep) (hiff : deep ↔ deep') : p.GivesUnless m deep' :=
  propext hiff ▸ hp

theorem of_gives {a : α} (h : p.Ends m [] (.ok a) m) : p.GivesUnless m False where
  gives _ := ⟨a, h⟩
  fails := nofun

/-- After a run that gives a value, all depends on what follows. -/
theorem after {a : α} (h : p.Ends m [] (.ok a) m) (hf : (f a).GivesUnless m deep) :
    (p >>= f).GivesUnless m deep where
  gives hn := by
    obtain ⟨b, hb⟩ := hf.gives hn
    exact ⟨b, h.bind hb⟩
  fails hd := by
    obtain ⟨error, heap, hnew, hthrown⟩ := hf.fails hd
    exact ⟨error, heap, hnew, h.bind hthrown⟩

/-- What follows may find a value too deep as well. -/
theorem bind (hp : p.GivesUnless m deep) (hf : ∀ a, (f a).GivesUnless m deep') :
    (p >>= f).GivesUnless m (deep ∨ deep') where
  gives hn := by
    obtain ⟨a, ha⟩ := hp.gives fun hd => hn (.inl hd)
    exact (after ha (hf a)).gives fun hd => hn (.inr hd)
  fails hd := by
    by_cases hdeep : deep
    · obtain ⟨error, heap, hnew, hthrown⟩ := hp.fails hdeep
      exact ⟨error, heap, hnew, hthrown.bind_error⟩
    · obtain ⟨a, ha⟩ := hp.gives hdeep
      exact (after ha (hf a)).fails (hd.resolve_left hdeep)

theorem bind_gives (hp : p.GivesUnless m deep) (hf : ∀ a, ∃ b, (f a).Ends m [] (.ok b) m) :
    (p >>= f).GivesUnless m deep := by
  refine (hp.bind fun a => ?_).congr (or_iff_left id)
  obtain ⟨b, hb⟩ := hf a
  exact .of_gives hb

/-- Of a list, the elements are gone through until one is found too deep. -/
theorem mapM {γ : Type} {g : γ → Run β} {tooDeep : γ → Prop} {l : List γ}
    (hg : ∀ c ∈ l, (g c).GivesUnless m (tooDeep c)) : (l.mapM g).GivesUnless m (∃ c ∈ l, tooDeep c) := by
  induction l with
  | nil => exact (of_gives (ends_pure [] m)).congr (by simp)
  | cons c rest ih =>
    rw [List.mapM_cons]
    have hrest := ih fun c' hc => hg c' (List.mem_cons_of_mem _ hc)
    have hboth := (hg c List.mem_cons_self).bind fun b => hrest.bind_gives fun bs => ⟨b :: bs, ends_pure _ m⟩
    exact hboth.congr (by simp)

end GivesUnless

section

variable {n : Nat} {id : ObjectId}

end

end Run

end Scripting.Js
