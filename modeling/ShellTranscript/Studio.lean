import ShellTranscript.Recorder.Lifecycle
import ShellTranscript.Session.Timing

-- A session whose commands a recorder writes down.
namespace ShellTranscript

structure Studio where
  session : Session
  recorder : Recorder := {}

namespace Studio

-- The recorder listens to the session's commands and screens.
def new (session : Session) : Studio :=
  { session := ((session.addCommandListener .relay).1.addScreenListener .relay).1 }

def desk (s : Studio) : Desk := { stage := s.session.stage, recorder := s.recorder }

def withDesk (s : Studio) (d : Desk) : Studio :=
  { session := s.session.withStage d.stage, recorder := d.recorder }

@[simp] theorem withDesk_desk (s : Studio) : s.withDesk s.desk = s := rfl

@[simp] theorem desk_withDesk (s : Studio) (d : Desk) : (s.withDesk d).desk = d := rfl

def settle (s : Studio) : Studio := { s with session := s.session.settle }

-- Lets the recorder handle what has been posted, and tells how many tasks that were.
def pump (s : Studio) : Studio × Nat :=
  let (desk, count) := s.desk.pump
  (s.withDesk desk, count)

-- Lets the recorder work while time moves up to a target, and tells whether the session ended. The
-- fuel bounds the moments at which time stops.
def runTo (target : Nat) : Nat → Studio → Studio × Bool
  | 0, s => (s, false)
  | fuel + 1, s =>
    let s := s.settle
    let (desk, isOver) := s.desk.drain
    let s := s.withDesk desk
    if isOver then (s, true)
    else
      match s.session.nextMoment? target with
      | some moment => runTo target fuel { s with session := { s.session with now := moment } }
      | none => ({ s with session := { s.session with now := target } }, false)

-- Lets the recorder work until the session ends or so many milliseconds have passed.
def run (s : Studio) (patience : Nat) : Studio × Bool :=
  runTo (s.session.now + patience) (2 * patience + 2) s

-- Takes everything out of the mailbox. The callbacks among it are run.
def drain (s : Studio) : Studio × List Task :=
  let mailbox := s.session.mailbox
  let desk := { s.desk with stage := { s.session.stage with mailbox := { mailbox with tasks := [] } } }
  let run := fun (d : Desk) (task : Task) =>
    match task with
    | .event _ => d
    | .invoke label => d.note (.ran label)
  (s.withDesk (mailbox.tasks.foldl run desk), mailbox.tasks)

-- The labels of what was run since they were last taken.
def takeRan (s : Studio) : List Text × Studio :=
  let (journal, desk) := s.desk.takeJournal
  (journal.filterMap JournalEntry.label?, s.withDesk desk)

end Studio

end ShellTranscript
