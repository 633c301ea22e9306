import ShellTranscript.Snapshot

-- What the recorder of a transcript is told, and the mailbox that holds it until the recorder looks.
-- Anyone may post at any time and never waits; tasks come out in the order they were posted.
namespace ShellTranscript

-- The epoch of a start is the one that the command's output belongs to; a finish brings the last
-- snapshot before the terminal was reset.
inductive Event where
  | outputChanged (output : Snapshot)
  | commandStarted (command prompt : Option Text) (epoch : Nat)
  | commandFinished (exitCode : Int) (output : Snapshot)
  | cleared
  | alternateChanged (enabled : Bool)
  | terminated
  | disposed
deriving DecidableEq, Repr

-- An event to handle, or something to run that is known by its label.
inductive Task where
  | event (e : Event)
  | invoke (label : Text)
deriving DecidableEq, Repr

namespace Task

-- Nothing is to be expected after such a task.
def isLast : Task → Bool
  | .event .terminated => true
  | .event .disposed => true
  | _ => false

end Task

-- `isClosed` tells that nobody reads any more, `isAbandoned` that nobody can post any more.
structure Mailbox where
  tasks : List Task := []
  isClosed : Bool := false
  isAbandoned : Bool := false
deriving DecidableEq, Repr

namespace Mailbox

-- Also tells whether there is still someone to read it.
def post (m : Mailbox) (task : Task) : Mailbox × Bool :=
  if m.isClosed then (m, false) else ({ m with tasks := m.tasks ++ [task] }, true)

def postEvent (m : Mailbox) (e : Event) : Mailbox := (m.post (.event e)).1

def next? (m : Mailbox) : Option (Task × Mailbox) :=
  match m.tasks with
  | [] => none
  | task :: rest => some (task, { m with tasks := rest })

def close (m : Mailbox) : Mailbox := { m with tasks := [], isClosed := true }

def abandon (m : Mailbox) : Mailbox := { m with isAbandoned := true }

end Mailbox

end ShellTranscript
