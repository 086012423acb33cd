/-
Arguments that are left out. The functions of the host library look at their arguments only through `optional`, which
does not tell a void argument from one that is not there, so lists that look the same through it are the same call
(`call_congr`). Voids behind the last argument are such a difference, whether the function has a parameter there or not.
-/
import Scripting.Library.Basic
import Scripting.Proofs.Host.Course

namespace Scripting.Library

/-- Two lists of arguments have the same arguments, where void ones count as left out. -/
def SameArguments (args args' : List Value) : Prop := ∀ i, optional args i = optional args' i

theorem sameArguments_append_voids (args : List Value) (k : Nat) :
    SameArguments (args ++ List.replicate k .void) args := by
  intro i
  unfold optional
  by_cases hi : i < args.length
  · rw [List.getElem?_append_left hi]
  · have hbehind : args.length ≤ i := Nat.le_of_not_lt hi
    rw [List.getElem?_append_right hbehind, List.getElem?_eq_none hbehind, List.getElem?_replicate]
    split
    · rfl
    · rfl

section

variable {args args' : List Value} (h : SameArguments args args')

include h

/-! ## Reading an argument -/

theorem requiredString_congr (i : Nat) (name : String) : requiredString args i name = requiredString args' i name := by
  unfold requiredString
  rw [h i]

theorem optionalString_congr (i : Nat) : optionalString args i = optionalString args' i := by
  unfold optionalString
  rw [h i]

theorem optionalMillis_congr (i : Nat) : optionalMillis args i = optionalMillis args' i := by
  unfold optionalMillis
  rw [h i]

theorem requiredHandle_congr (i : Nat) : requiredHandle args i = requiredHandle args' i := by
  unfold requiredHandle
  rw [h i]

theorem optionalCloseCode_congr (i : Nat) : optionalCloseCode args i = optionalCloseCode args' i := by
  unfold optionalCloseCode
  rw [h i]

/-! ## Calls -/

theorem postMessage_congr : postMessage args = postMessage args' := by
  unfold postMessage
  rw [requiredString_congr h, requiredString_congr h, h 2]

theorem pollMessage_congr : pollMessage args = pollMessage args' := by
  unfold pollMessage
  rw [requiredString_congr h, optionalMillis_congr h]

theorem makeRequest_congr : makeRequest args = makeRequest args' := by
  unfold makeRequest
  rw [requiredString_congr h, requiredString_congr h, optionalString_congr h, optionalString_congr h,
    optionalMillis_congr h]

theorem openWebsocket_congr : openWebsocket args = openWebsocket args' := by
  unfold openWebsocket
  rw [requiredString_congr h, optionalString_congr h, optionalMillis_congr h, requiredString_congr h]

theorem sendWebsocketMessage_congr : sendWebsocketMessage args = sendWebsocketMessage args' := by
  unfold sendWebsocketMessage
  rw [requiredHandle_congr h, requiredString_congr h]

theorem closeWebsocket_congr : closeWebsocket args = closeWebsocket args' := by
  unfold closeWebsocket
  rw [requiredHandle_congr h, optionalCloseCode_congr h, optionalString_congr h]

/-- The same arguments are the same call. -/
theorem call_congr (name : String) : natives.call name args = natives.call name args' := by
  unfold Natives.call
  split
  · rename_i f hf
    have hmem := Assoc.mem_of_mem_ofList (Assoc.mem_of_find? hf)
    simp only [List.mem_cons, Prod.mk.injEq, List.not_mem_nil, or_false] at hmem
    rcases hmem with ⟨-, rfl⟩ | ⟨-, rfl⟩ | ⟨-, rfl⟩ | ⟨-, rfl⟩ | ⟨-, rfl⟩ | ⟨-, rfl⟩ | ⟨-, rfl⟩
    · exact postMessage_congr h
    · exact pollMessage_congr h
    · exact makeRequest_congr h
    · exact openWebsocket_congr h
    · exact sendWebsocketMessage_congr h
    · exact closeWebsocket_congr h
    · rfl
  · rfl

end

/-- Voids behind the arguments of a call do not matter: the call asks the host for the same in the same order and ends
the same way, whatever it is answered. So it comes to the same result or error and leaves the same host behind, with
all channels, connections and traffic, however it and what else happens meanwhile take turns. -/
theorem void_is_left_out (name : String) (args : List Value) (k : Nat) :
    natives.call name (args ++ List.replicate k .void) = natives.call name args ∧
      ∀ (between : Host.Event → Prop) (seat : Seat) (h h' : Host) (result : Except String Value),
        Host.Course between (Activity.step seat) h (.going (natives.call name (args ++ List.replicate k .void)))
            h' (.done result) ↔
          Host.Course between (Activity.step seat) h (.going (natives.call name args)) h' (.done result) := by
  have hcall : natives.call name (args ++ List.replicate k .void) = natives.call name args :=
    call_congr (sameArguments_append_voids args k) name
  refine ⟨hcall, ?_⟩
  intro between seat h h' result
  rw [hcall]

end Scripting.Library
