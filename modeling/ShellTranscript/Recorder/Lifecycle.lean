import ShellTranscript.Recorder.Basic
import ShellTranscript.Transcript.Output

-- What the recorder does when commands start and finish, when snapshots arrive and when the terminal
-- switches its screens, and how it works through its mailbox.
namespace ShellTranscript.Desk

-- Shows the end of what was just written.
def showCaret (d : Desk) (caret : Nat) : Desk :=
  d.modifyRecorder fun r => { r with viewport :=
    { r.viewport with caret, scroll := some .caretCenterDown } }

-- The end of a block, or the old caret if the block is not there.
def stopOf (d : Desk) (id : Nat) : Nat :=
  ((d.transcript.block? id).map Block.stop).getD d.recorder.viewport.caret

-- Writes a snapshot into the open block. It is dropped when nobody looks, when it shows the alternate
-- screen, when no block is open, or when it is of another epoch than the block.
def applyOutput (d : Desk) (output : Snapshot) : Outcome Desk :=
  if d.recorder.viewport.disposed || output.alternate then .done d
  else
    match d.activeId? with
    | none => .done d
    | some id =>
      if d.recorder.epoch ≠ some output.epoch then .done d
      else
        match d.transcript.writeOutput id output with
        | .error reason => .refused reason d
        | .ok t =>
          let d := d.withTranscript t
          .done (d.showCaret (d.stopOf id))

-- Opens a block for a command and writes what is already there of its output.
def startBlock (d : Desk) (command prompt : Option Text) (epoch : Nat) : Outcome Desk :=
  match d.transcript.start command prompt with
  | .error reason => .refused reason d
  | .ok (id, t) =>
    let d := d.withTranscript t
    let d := d.modifyRecorder fun r => { r with state := .running, epoch := some epoch }
    let d := (d.showCaret (d.stopOf id)).openScope id
    d.applyOutput d.stage.terminal.snapshot

-- Closes the open block after a last snapshot, if one is given.
def finishBlock (d : Desk) (exitCode : Int) (output : Option Snapshot) : Outcome Desk :=
  let d := d.closeCurrentScope
  let active := d.activeId?
  let written := match active, output with
    | some _, some output => d.applyOutput output
    | _, _ => .done d
  written.andThen fun d =>
    let d := d.modifyRecorder fun r => { r with state := .idle, epoch := none }
    match active with
    | none => .refused .noActiveBlock d
    | some id =>
      match d.transcript.conclude id exitCode with
      | .error reason => .refused reason d
      | .ok t =>
        let d := d.withTranscript t
        .done (d.modifyRecorder fun r => { r with viewport :=
          { r.viewport with caret := t.document.length } })

-- Opens a block on a terminal that is reset first, so that only what is written later shows.
def startCommand (d : Desk) (command prompt : Option Text) : Outcome Desk :=
  match d.transcript.activeBlock? with
  | some b => .refused (.blockStillOpen b.id) d
  | none =>
    let terminal := d.stage.terminal.clearAll
    startBlock { d with stage := { d.stage with terminal } } command prompt terminal.epoch
      |>.restoring d

-- Closes the open block with what the terminal shows now.
def finishCommand (d : Desk) (exitCode : Int) : Outcome Desk :=
  let closed := d.closeCurrentScope
  (closed.finishBlock exitCode (some closed.stage.terminal.snapshot)).restoring d

-- Closes the last block and starts an empty line below it.
def insertEmptyLine (d : Desk) : Desk :=
  let d := d.closeCurrentScope
  let t := d.transcript.closeLast.appendLineBreak
  (d.withTranscript t).modifyRecorder fun r => { r with
    state := .idle
    epoch := none
    viewport := { r.viewport with caret := t.document.length, scroll := some .bottom } }

-- The alternate screen suspends recording; back on the main screen the block catches up at once.
def changeAlternate (d : Desk) (enabled : Bool) : Outcome Desk :=
  match d.recorder.state, enabled with
  | .running, true =>
    .done (d.closeCurrentScope.modifyRecorder fun r => { r with state := .suspended })
  | .suspended, false =>
    match d.activeId? with
    | none => .done (d.modifyRecorder fun r => { r with state := .idle })
    | some id =>
      let d := (d.openScope id).modifyRecorder fun r => { r with state := .running }
      d.applyOutput d.stage.terminal.snapshot
  | _, _ => .done d

def clearBlocks (d : Desk) : Desk :=
  let d := d.closeCurrentScope
  (d.withTranscript d.transcript.clear).modifyRecorder fun r => { r with
    state := .idle, epoch := none, viewport := { r.viewport with caret := 0 } }

-- The view is gone: nothing is listened to, and snapshots are dropped from now on.
def dispose (d : Desk) : Desk :=
  d.closeCurrentScope.modifyRecorder fun r => { r with
    state := .idle, viewport := { r.viewport with disposed := true } }

def terminate (d : Desk) : Desk :=
  d.closeCurrentScope.modifyRecorder fun r => { r with terminated := true }

-- A start while a command runs finishes that command first; a finish without a command is ignored.
def handleEvent (d : Desk) : Event → Outcome Desk
  | .outputChanged output =>
    if d.recorder.state = .running then d.applyOutput output else .done d
  | .commandStarted command prompt epoch =>
    let ready := if d.recorder.state = .idle then .done d else d.finishBlock 0 none
    ready.andThen fun d => d.startBlock command prompt epoch
  | .commandFinished exitCode output =>
    if d.recorder.state = .idle then .done d else d.finishBlock exitCode (some output)
  | .cleared => .done d.clearBlocks
  | .alternateChanged enabled => d.changeAlternate enabled
  | .terminated => .done d.terminate
  | .disposed => .done d.dispose

def handle (d : Desk) (e : Event) : Outcome Desk := (d.handleEvent e).restoring d

-- A task of the mailbox. An event that is refused has no further consequence.
def runTask (d : Desk) : Task → Desk
  | .event e => (d.handle e).state
  | .invoke label => d.note (.ran label)

-- Runs everything in the mailbox and tells how many tasks that were. Tasks add none to the mailbox,
-- so the fuel is their number at the start.
def pumpFor : Nat → Desk → Desk × Nat
  | 0, d => (d, 0)
  | fuel + 1, d =>
    match d.stage.mailbox.next? with
    | none => (d, 0)
    | some (task, mailbox) =>
      let (d, count) := pumpFor fuel (runTask { d with stage := { d.stage with mailbox } } task)
      (d, count + 1)

def pump (d : Desk) : Desk × Nat := d.pumpFor d.stage.mailbox.tasks.length

-- Runs tasks up to one after which nothing is to be expected, and tells whether it came.
def drainFor : Nat → Desk → Desk × Bool
  | 0, d => (d, false)
  | fuel + 1, d =>
    match d.stage.mailbox.next? with
    | none => (d, false)
    | some (task, mailbox) =>
      let d := runTask { d with stage := { d.stage with mailbox } } task
      if task.isLast then (d, true) else drainFor fuel d

def drain (d : Desk) : Desk × Bool := d.drainFor d.stage.mailbox.tasks.length

-- Takes the scroll request, which is then no longer there.
def takeScroll (d : Desk) : Option ScrollRequest × Desk :=
  (d.recorder.viewport.scroll,
    d.modifyRecorder fun r => { r with viewport := { r.viewport with scroll := none } })

-- A router takes effect when the next scope opens.
def setRouter (d : Desk) (router : Text) : Desk :=
  d.modifyRecorder fun r => { r with router := some router }

end ShellTranscript.Desk
