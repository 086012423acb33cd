/-
Laws of channels. What is taken out of a queue comes off its front and what is put in goes to its end,
so what was there and came in is what went out and is there now. A change of one channel leaves every
other as it is, and no channel goes away.
-/
import Scripting.Channel.Poll
import Scripting.Proofs.Assoc

namespace Scripting

/-! ## One channel -/

namespace Channel

theorem evict_append (capacity : Option Nat) (messages : List Message) :
    (evict capacity messages).1 ++ (evict capacity messages).2 = messages := by
  unfold evict
  cases capacity with
  | none => rfl
  | some n => exact List.take_append_drop _ _

theorem post_conserves (capacity : Option Nat) (m : Message) (c : Channel) :
    (c.post capacity m).1 ++ (c.post capacity m).2.messages = c.messages ++ [m] := by
  unfold post
  rw [← List.append_assoc, evict_append]

theorem poll_conserves (c : Channel) : c.poll.1.toList ++ c.poll.2.messages = c.messages := by
  unfold poll
  cases c.messages <;> rfl

/-- Without a capacity nothing is pushed out. -/
theorem post_unbounded (m : Message) (c : Channel) : (c.post none m).1 = [] := rfl

/-- What a post pushes out of a queue that keeps to its capacity: the oldest message, if it is full. -/
theorem post_evicts {n : Nat} {c : Channel} (hc : c.messages.length ≤ max n 1) (m : Message) :
    (c.post (some n) m).1 = if c.messages.length = max n 1 then c.messages.take 1 else [] := by
  unfold post evict
  simp only
  split
  · rename_i h
    rw [show c.messages.length + 1 - max n 1 = 1 by omega]
  · rename_i h
    rw [show c.messages.length + 1 - max n 1 = 0 by omega, List.take_zero]

theorem post_length {n : Nat} (m : Message) (c : Channel) :
    (c.post (some n) m).2.messages.length ≤ max n 1 := by
  unfold post evict
  simp only [List.length_append, List.length_drop, List.length_singleton]
  omega

end Channel

/-! ## The bus -/

namespace Bus

theorem channel_setChannel (b : Bus) (n n' : String) (c : Channel) :
    (b.setChannel n c).channel n' = if n' = n then c else b.channel n' := by
  unfold channel setChannel
  rw [Assoc.find?_insert]
  split <;> rfl

theorem channel_setChannel_self (b : Bus) (n : String) (c : Channel) : (b.setChannel n c).channel n = c := by
  rw [channel_setChannel, if_pos rfl]

theorem channel_setChannel_of_ne {n n' : String} (hn : n' ≠ n) (b : Bus) (c : Channel) :
    (b.setChannel n c).channel n' = b.channel n' := by
  rw [channel_setChannel, if_neg hn]

theorem mem_names_setChannel {b : Bus} {n n' : String} {c : Channel} :
    n' ∈ (b.setChannel n c).names ↔ n' = n ∨ n' ∈ b.names := Assoc.mem_keys_insert

/-- Naming a channel brings it into being and changes nothing in any. -/
theorem channel_ensure (b : Bus) (n n' : String) : (b.ensure n).channel n' = b.channel n' := by
  unfold ensure
  rw [channel_setChannel]
  split
  · rename_i h; rw [h]
  · rfl

/-- The names of the channels stand in order, each once. -/
def Sorted (b : Bus) : Prop := Assoc.Ascending b.channels

theorem sorted_setChannel {b : Bus} (hs : b.Sorted) (n : String) (c : Channel) : (b.setChannel n c).Sorted :=
  Assoc.ascending_insert hs n c

theorem Sorted.nodup_names {b : Bus} (hs : b.Sorted) : b.names.Nodup := Assoc.Ascending.nodup hs

end Bus

/-! ## Pollers -/

/-- The message that a poller has taken out of the queue. -/
def Poll.taken? (p : Poll) : Option Message :=
  match p.phase with
  | .leaving m | .left m | .done m => m
  | _ => none

end Scripting
