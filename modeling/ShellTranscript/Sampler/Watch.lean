import ShellTranscript.Sampler.Loop

-- A watched terminal: a terminal, its sampler, the loops that watch it, and what the sampler
-- delivered. Time moves only when it is told to.
namespace ShellTranscript

structure Watch (α : Type) where
  terminal : Terminal
  sampler : Sampler α := {}
  loops : List SamplingLoop := []
  now : Nat := 0
  delivered : List (α × Snapshot) := []

namespace Watch

variable {α : Type}

-- How a listener changes the registry when it is called.
abbrev Reaction (α : Type) := Nat → α → Registry α → Registry α

def deliver (react : Reaction α) (snapshot : Snapshot) (w : Watch α) : Watch α :=
  w.sampler.listeners.notify
    (fun id a w => { w with
      delivered := w.delivered ++ [(a, snapshot)]
      sampler := { w.sampler with listeners := react id a w.sampler.listeners } })
    w

-- Broadcasts the terminal's content if it changed since the last broadcast, and tells whether it did.
def poll (react : Reaction α) (w : Watch α) : Watch α × Bool :=
  match w.sampler.sample w.terminal with
  | none => (w, false)
  | some snapshot => (deliver react snapshot { w with sampler := w.sampler.send snapshot }, true)

-- One step of one loop.
def stepLoop (react : Reaction α) (w : Watch α) (index : Nat) : Watch α :=
  match w.loops[index]? with
  | none => w
  | some l =>
    let (l, polls) := l.step w.terminal w.now
    let w := { w with loops := w.loops.set index l }
    if polls then (w.poll react).1 else w

-- Four steps take a loop from the notice of a change to the next wait and over its end.
def settleLoop (react : Reaction α) (w : Watch α) (index : Nat) : Watch α :=
  (List.range 5).foldl (fun w _ => w.stepLoop react index) w

-- Lets every loop run until it waits.
def settle (react : Reaction α) (w : Watch α) : Watch α :=
  (List.range w.loops.length).foldl (fun w index => w.settleLoop react index) w

-- Starts a loop, unless the terminal is disposed.
def watch (w : Watch α) (interval : Nat) : Watch α × Bool :=
  match SamplingLoop.start? w.terminal interval with
  | none => (w, false)
  | some l => ({ w with loops := w.loops ++ [l] }, true)

-- The earliest time at which a pause of some loop ends.
def nextDeadline? (w : Watch α) : Option Nat := (w.loops.filterMap SamplingLoop.deadline?).min?

-- Lets the loops run up to a time, at every moment at which one of them has something to do. The
-- fuel bounds the number of such moments.
def runUntil (react : Reaction α) (target : Nat) : Nat → Watch α → Watch α
  | 0, w => { w with now := target }.settle react
  | fuel + 1, w =>
    let w := w.settle react
    match w.nextDeadline? with
    | some deadline =>
      if deadline ≤ target then runUntil react target fuel { w with now := max w.now deadline }
      else { w with now := target }
    | none => { w with now := target }

-- Moves time and lets the loops run.
def advance (react : Reaction α) (w : Watch α) (time : Nat) : Watch α :=
  w.runUntil react (w.now + time) (time + 1)

end Watch

end ShellTranscript
