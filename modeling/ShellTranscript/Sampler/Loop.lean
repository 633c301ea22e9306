import ShellTranscript.Sampler.Basic

-- The loop that watches a terminal: it waits for a change that it has not seen, lets an interval pass
-- so that a burst of changes counts once, marks what has happened by then as seen, and polls. It ends
-- when the terminal is disposed and nothing unseen is left.
namespace ShellTranscript

inductive LoopPhase where
  | waiting
  | pausing (wakeAt : Nat)
  | polling
  | ended
deriving DecidableEq, Repr

-- `seen` is the last generation that the loop knows of.
structure SamplingLoop where
  interval : Nat
  seen : Nat
  phase : LoopPhase := .waiting
deriving DecidableEq, Repr

namespace SamplingLoop

-- A loop on a terminal that is not disposed.
def start? (t : Terminal) (interval : Nat) : Option SamplingLoop :=
  t.subscribe.map fun seen => { interval, seen }

-- Notices a change, or that there will be none any more.
def notice (l : SamplingLoop) (t : Terminal) (now : Nat) : SamplingLoop :=
  if l.seen ≠ t.published then
    { l with seen := t.published, phase := .pausing (now + l.interval) }
  else if t.disposed then { l with phase := .ended }
  else l

-- The pause is over: everything up to now counts as seen, and a poll follows.
def wake (l : SamplingLoop) (t : Terminal) : SamplingLoop :=
  { l with seen := t.published, phase := .polling }

-- One step of the loop; `true` tells that it polls in this step.
def step (l : SamplingLoop) (t : Terminal) (now : Nat) : SamplingLoop × Bool :=
  match l.phase with
  | .waiting => (l.notice t now, false)
  | .pausing wakeAt => (if wakeAt ≤ now then l.wake t else l, false)
  | .polling => ({ l with phase := .waiting }, true)
  | .ended => (l, false)

-- When a pause will be over.
def deadline? (l : SamplingLoop) : Option Nat :=
  match l.phase with
  | .pausing wakeAt => some wakeAt
  | _ => none

end SamplingLoop

end ShellTranscript
