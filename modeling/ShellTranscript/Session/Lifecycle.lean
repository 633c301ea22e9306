import ShellTranscript.Session.Basic

-- The start and the end of a session. Both are sequences of steps, and the steps of a start and of a
-- disposal may come in any order between each other.
namespace ShellTranscript

-- How far a start is. It checks that the session is not disposed, marks it as started, lets the tasks
-- run, attaches the reader, lists the tasks for disposal and opens the latch. Attaching the reader is
-- one step, which takes it from the connection and makes the thread that reads: taking it can fail, a
-- thread can always be made.
inductive StartPhase where
  | checking
  | marking
  | spawning
  | attaching
  | listing (connector : Nat)
  | opening (connector : Nat)
  | returned (result : Except SessionFault Unit)

structure StartCall where
  faults : ConnectorFaults := {}
  phase : StartPhase := .checking

def StartCall.result? (call : StartCall) : Option (Except SessionFault Unit) :=
  match call.phase with
  | .returned result => some result
  | _ => none

-- How far a disposal is. It marks the session as disposed, takes the connection from the latch and
-- closes it, disposes of the terminal, ends the listed tasks and tells the recorder.
inductive DisposePhase where
  | marking
  | taking
  | closing (connector : Nat)
  | silencing
  | aborting
  | announcing
  | returned
deriving DecidableEq, Repr

namespace Session

-- The reason a connection gives when its call fails by order.
def failedCall (call : String) : String := call ++ " failed: scripted " ++ call ++ " failure"

def spawnTasks (s : Session) : Session :=
  { s with
    samplingLoop := SamplingLoop.start? s.terminal s.settings.sampleInterval
    nextTick := if s.settings.echo.enabled then some s.now else none }

def abortTasks (s : Session) : Session :=
  { s with samplingLoop := none, nextTick := none, tasksListed := false }

def isLooping (s : Session) : Bool :=
  match s.samplingLoop with
  | some l => l.phase != .ended
  | none => false

-- Whether a task of the session still runs.
def hasTasks (s : Session) : Bool := s.isLooping || s.nextTick.isSome

def stepStart (s : Session) (call : StartCall) : Session × StartCall :=
  let goOn := fun (s : Session) phase => (s, { call with phase })
  match call.phase with
  | .checking => goOn s (if s.isDisposed then .returned (.error .disposed) else .marking)
  | .marking =>
    if s.isStarted then goOn s (.returned (.error .alreadyStarted))
    else goOn { s with isStarted := true } .spawning
  | .spawning => goOn s.spawnTasks .attaching
  | .attaching =>
    if call.faults.takeReader then
      goOn { s.abortTasks with isStarted := false }
        (.returned (.error (.transport (failedCall "take_reader"))))
    else
      let index := s.connectors.length
      goOn { s with
        connectors := s.connectors ++ [{ faults := call.faults }]
        reader := .attached index } (.listing index)
  | .listing connector => goOn { s with tasksListed := true } (.opening connector)
  | .opening connector => goOn { s with latch := (s.latch.resolve connector).1 } (.returned (.ok ()))
  | .returned result => goOn s (.returned result)

def stepDispose (s : Session) (phase : DisposePhase) : Session × DisposePhase :=
  match phase with
  | .marking => if s.isDisposed then (s, .returned) else ({ s with isDisposed := true }, .taking)
  | .taking =>
    let (latch, connector) := s.latch.dispose
    ({ s with latch }, match connector with
      | some connector => .closing connector
      | none => .silencing)
  | .closing connector => (s.modifyConnector connector Connector.close, .silencing)
  | .silencing => (s.withTerminal s.terminal.dispose, .aborting)
  | .aborting => (if s.tasksListed then s.abortTasks else s, .announcing)
  | .announcing => ({ s with mailbox := s.mailbox.postEvent .disposed }, .returned)
  | .returned => (s, .returned)

-- Six steps take a start to its end.
def start (s : Session) (faults : ConnectorFaults) : Session × Except SessionFault Unit :=
  let (s, call) := (List.range 6).foldl (fun (s, call) _ => s.stepStart call) (s, { faults })
  (s, call.result?.getD (.ok ()))

-- Six steps take a disposal to its end.
def dispose (s : Session) : Session :=
  ((List.range 6).foldl (fun (s, phase) _ => s.stepDispose phase) (s, DisposePhase.marking)).1

-- The shell has gone: the connection is closed, the terminal disposed of, and the recorder is told
-- after the callbacks have been asked for.
def terminate (s : Session) (connector : Nat) : Session :=
  let s := s.modifyConnector connector Connector.close
  let s := s.withTerminal s.terminal.dispose
  let mailbox := s.terminationCallbacks.members.foldl
    (fun mailbox label => (mailbox.post (.invoke label)).1) s.mailbox
  { s with mailbox := mailbox.postEvent .terminated, reader := .gone }

end Session

end ShellTranscript
