import ShellTranscript.Session.Arrival
import ShellTranscript.Session.Request

-- The session's tasks in time. Time stands still until it is moved, and then stops at every moment at
-- which a task has something to do.
namespace ShellTranscript.Session

-- The milliseconds from one tick to the next.
def tickPeriod : Nat := 50

-- One step of the sampling loop.
def stepLoop (s : Session) : Session :=
  match s.samplingLoop with
  | none => s
  | some l =>
    let (l, polls) := l.step s.terminal s.now
    let s := { s with samplingLoop := some l }
    if polls then s.poll.1 else s

-- Steps enough for the loop to come back to where it waits, or to its end.
def runLoop (s : Session) : Session := (List.range 5).foldl (fun s _ => s.stepLoop) s

-- A tick drops the predictions that were not echoed in time.
def tick (s : Session) : Session :=
  match s.nextTick with
  | none => s
  | some due =>
    if due ≤ s.now then
      { s.modifyEcho fun echo => (echo.expire s.steadyClock).2 with
        nextTick := some (s.now + tickPeriod) }
    else s

-- Lets everything run that needs no time.
def settle (s : Session) : Session := s.finishRequests.runLoop.tick

def nextDeadline? (s : Session) : Option Nat :=
  ((s.samplingLoop.bind SamplingLoop.deadline?).toList ++ s.nextTick.toList).min?

-- The next moment at which something is due, up to a time.
def nextMoment? (s : Session) (target : Nat) : Option Nat :=
  match s.nextDeadline? with
  | some deadline => if deadline ≤ target then some (max s.now deadline) else none
  | none => none

-- Moves time up to a target. The fuel bounds the moments at which it stops.
def advanceTo (target : Nat) : Nat → Session → Session
  | 0, s => { s with now := target }.settle
  | fuel + 1, s =>
    let s := s.settle
    match s.nextMoment? target with
    | some moment => advanceTo target fuel { s with now := moment }
    | none => { s with now := target }

def advance (s : Session) (time : Nat) : Session := advanceTo (s.now + time) (2 * time + 2) s

end ShellTranscript.Session
