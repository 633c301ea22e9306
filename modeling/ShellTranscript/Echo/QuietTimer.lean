-- A timer that runs out after a quiet period, or a longest time after the first of a burst of calls,
-- whichever is earlier. Times are milliseconds.
namespace ShellTranscript

structure QuietTimer where
  delay : Nat
  longest : Nat
  firstCall : Option Nat := none
  deadline : Option Nat := none
deriving DecidableEq, Repr

namespace QuietTimer

-- The longest time is never shorter than the quiet period.
def new (delay longest : Nat) : QuietTimer := { delay, longest := max longest delay }

def schedule (t : QuietTimer) (now : Nat) : QuietTimer :=
  let first := t.firstCall.getD now
  { t with firstCall := some first, deadline := some (min (now + t.delay) (first + t.longest)) }

def isDue (t : QuietTimer) (now : Nat) : Bool :=
  match t.deadline with
  | some deadline => deadline ≤ now
  | none => false

-- The burst is over.
def stop (t : QuietTimer) : QuietTimer := { t with firstCall := none, deadline := none }

end QuietTimer

end ShellTranscript
