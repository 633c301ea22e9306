import ShellTranscript.Registry
import ShellTranscript.Snapshot

-- The sampler takes snapshots of a terminal and broadcasts those that differ from the one broadcast
-- before. The alternate screen is never broadcast, and a disposed terminal is not sampled.
namespace ShellTranscript

structure Sampler (α : Type) where
  listeners : Registry α := {}
  lastSent : Option Snapshot := none
deriving Repr

namespace Sampler

variable {α : Type}

-- The snapshot to broadcast now, if there is one.
def sample (s : Sampler α) (t : Terminal) : Option Snapshot :=
  if t.disposed then none
  else
    let snapshot := t.snapshot
    if snapshot.alternate then none
    else if s.lastSent = some snapshot then none
    else some snapshot

-- Notes the snapshot that is broadcast.
def send (s : Sampler α) (snapshot : Snapshot) : Sampler α := { s with lastSent := some snapshot }

end Sampler

end ShellTranscript
