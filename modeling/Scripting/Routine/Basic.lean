/-
Routines: computations that now and then ask their host for something and go on with the answer. A
script, the making ready of a script and every native function is a routine, so the host decides in
which order what they ask for happens.
-/
import Scripting.Message.Basic
import Scripting.Log
import Scripting.Net.Basic
import Scripting.Shape.Basic

namespace Scripting

/-- The number of a stop token. -/
abbrev TokenId := Nat

/-- What a routine asks for. -/
inductive Demand where
  /-- Brings a channel into being. -/
  | channel (name : String)
  | post (channel event : String) (params : Option String)
  | poll (channel : String)
  /-- Waits for a message, so many milliseconds or without limit. -/
  | await (channel : String) (wait : Option Nat)
  | request (call : Net.Call)
  | openStream (call : Net.StreamCall)
  | send (handle : UInt32) (text : String)
  | close (handle : UInt32) (code : UInt16) (reason : String)
  /-- The name of the script thread that the routine runs on. -/
  | currentThread
  /-- The shapes that are known. -/
  | shapes
  | isStopped (token : TokenId)
  | stop (token : TokenId)
  | log (event : Log.Event)
  /-- Lets other threads go on. -/
  | yield

/-- What the answer to a demand is. -/
@[reducible] def Demand.Answer : Demand → Type
  | .channel _ => Unit
  | .post .. => Unit
  | .poll _ => Option Message
  | .await .. => Option Message
  | .request _ => Except Net.NetError Net.Response
  | .openStream _ => Except Net.NetError UInt32
  | .send .. => Bool
  | .close .. => Bool
  | .currentThread => Option String
  | .shapes => Shapes
  | .isStopped _ => Bool
  | .stop _ => Unit
  | .log _ => Unit
  | .yield => Unit

/-- A computation that asks its host. -/
inductive Routine (α : Type) where
  | done (a : α)
  | ask (d : Demand) (resume : d.Answer → Routine α)

namespace Routine

instance {α : Type} [Inhabited α] : Inhabited (Routine α) := ⟨.done default⟩

/-- One routine after another. -/
def bind {α β : Type} : Routine α → (α → Routine β) → Routine β
  | .done a, f => f a
  | .ask d resume, f => .ask d fun r => (resume r).bind f

instance : Monad Routine where
  pure := .done
  bind := bind

/-- Asks for one thing and ends with the answer. -/
def demand (d : Demand) : Routine d.Answer := .ask d .done

end Routine

end Scripting
