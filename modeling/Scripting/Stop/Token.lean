/-
Stop tokens: a flag that goes up once, with the wakers that are to run when it does. A waker is
registered for as long as somebody waits and is known by a number that is never given twice. Whoever
waits without a waker is given up by the cancellation, which comes with the flag.
-/
import Scripting.Assoc
import Scripting.Text.Quoted

namespace Scripting

/-- A flag with the wakers that are registered on it. The numbers have no end here; a counter of 64 bits
gives none twice before 2^64 registrations on one token. -/
structure StopToken (ω : Type) where
  stopped : Bool := false
  cancelled : Bool := false
  wakers : Assoc Nat ω := []
  nextWaker : Nat := 0
  deriving Inhabited

namespace StopToken

variable {ω : Type}

/-- Registers a waker; the number is what takes it away again. -/
def onStop (t : StopToken ω) (waker : ω) : StopToken ω × Nat :=
  ({ t with wakers := Assoc.insert t.nextWaker waker t.wakers, nextWaker := t.nextWaker + 1 },
    t.nextWaker)

/-- Takes a waker away. -/
def drop (t : StopToken ω) (waker : Nat) : StopToken ω :=
  { t with wakers := Assoc.erase waker t.wakers }

/-- Raises the flag and cancels. The first request gives the wakers that are registered, to be run;
every later one gives none. -/
def request (t : StopToken ω) : StopToken ω × List ω :=
  if t.stopped then (t, [])
  else ({ t with stopped := true, cancelled := true }, t.wakers.map Prod.snd)

def summary (t : StopToken ω) : String :=
  Text.summary "StopToken" [("stopped", if t.stopped then "true" else "false")]

end StopToken

end Scripting
