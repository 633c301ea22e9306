import ShellTranscript.Latch
import ShellTranscript.Recorder.Basic
import ShellTranscript.Sampler.Loop
import ShellTranscript.Session.Connector
import ShellTranscript.Session.Reading
import ShellTranscript.Settings

-- A session with a shell: the terminal and all that works on it, the connection, and those who
-- listen. What a session does by itself is cut into steps that nothing interrupts, so that the steps
-- of different activities can follow each other in any order.
namespace ShellTranscript

-- Why a session could not be made or started.
inductive SessionFault where
  | noRuntime
  | alreadyStarted
  | disposed
  | transport (cause : String)
deriving DecidableEq, Repr

def SessionFault.name : SessionFault → String
  | noRuntime => "NoRuntime"
  | alreadyStarted => "AlreadyStarted"
  | disposed => "Disposed"
  | transport _ => "Transport"

def SessionFault.message : SessionFault → String
  | noRuntime => "no tokio runtime available to drive the session"
  | alreadyStarted => "session already started"
  | disposed => "session disposed"
  | transport cause => "transport error: " ++ cause

-- Listeners pass what they are told to the recorder, keep it under a name, or do nothing.
inductive NoticeListener where
  | relay
  | observer (name : Text)
  | silent
deriving DecidableEq, Repr

-- How a request to the connection ended.
inductive Delivery where
  | delivered
  | skipped
  | noTransport
deriving DecidableEq, Repr

def Delivery.name : Delivery → String
  | delivered => "Delivered"
  | skipped => "Skipped"
  | noTransport => "NoTransport"

inductive Errand where
  | write (payload : Text)
  | resize (size : ScreenSize)
deriving DecidableEq, Repr

-- How far a request is. It waits for the connection; a resize then compares the sizes, drops the
-- predictions, and resizes the connection and the terminal one after the other.
inductive RequestPhase where
  | waiting
  | connected (connector : Nat)
  | differing (connector : Nat)
  | unpredicted (connector : Nat)
  | connectorResized
  | resolved (result : Delivery)
deriving DecidableEq, Repr

structure Request where
  errand : Errand
  phase : RequestPhase := .waiting
deriving DecidableEq, Repr

-- What arrives from the shell: output, the end of it, or a failure to read, after which reading is
-- either tried again or over.
inductive Arrival where
  | output (bytes : List UInt8)
  | finish
  | failure (isTransient : Bool)
deriving DecidableEq, Repr

-- Reading goes on between the start of a session and the end of the shell's output.
inductive ReaderStatus where
  | absent
  | attached (connector : Nat)
  | gone
deriving DecidableEq, Repr

-- Connections are known by their place in the list; the latch opens with the one in use. Until there
-- is a reader, arrivals wait. The two tasks are the sampling loop and the ticker, which is told by its
-- next tick; `tasksListed` tells that disposal finds them. Observers' notices are kept with their
-- names. Predictions are timed by a steady clock, tasks by the time that the session is moved to.
structure Session where
  settings : Settings := {}
  reading : Reading
  sampler : Sampler Relay := {}
  mailbox : Mailbox := {}
  isStarted : Bool := false
  isDisposed : Bool := false
  latch : Latch Nat := .pending
  connectors : List Connector := []
  commandListeners : Registry NoticeListener := {}
  screenListeners : Registry NoticeListener := {}
  terminationCallbacks : Registry Text := {}
  requests : List Request := []
  samplingLoop : Option SamplingLoop := none
  nextTick : Option Nat := none
  tasksListed : Bool := false
  reader : ReaderStatus := .absent
  arrivals : List Arrival := []
  observed : List (Text × Notice) := []
  now : Nat := 0
  steadyClock : Nat := 0

namespace Session

-- A session needs something that runs its tasks.
def new (hasRuntime : Bool) (settings : Settings) : Except SessionFault Session :=
  if hasRuntime then
    .ok {
      settings
      reading := {
        terminal := .new settings.size settings.scrollback
        echo := .new settings.echo.enabled settings.echo.quietPeriod settings.echo.longestWait } }
  else .error .noRuntime

def terminal (s : Session) : Terminal := s.reading.terminal

def withTerminal (s : Session) (t : Terminal) : Session :=
  { s with reading := { s.reading with terminal := t } }

def modifyEcho (s : Session) (f : EchoPredictor → EchoPredictor) : Session :=
  { s with reading := { s.reading with echo := f s.reading.echo } }

-- The part of the session that a recorder works with.
def stage (s : Session) : Stage :=
  { terminal := s.terminal, sampler := s.sampler, mailbox := s.mailbox }

def withStage (s : Session) (stage : Stage) : Session :=
  { s.withTerminal stage.terminal with sampler := stage.sampler, mailbox := stage.mailbox }

@[simp] theorem withStage_stage (s : Session) : s.withStage s.stage = s := rfl

@[simp] theorem stage_withStage (s : Session) (stage : Stage) : (s.withStage stage).stage = stage :=
  rfl

def modifyConnector (s : Session) (index : Nat) (f : Connector → Connector) : Session :=
  { s with connectors := s.connectors.modify index f }

-- Calls a connection, and tells whether the call succeeded.
def callConnector (s : Session) (index : Nat) (call : Connector → Connector × Bool) :
    Session × Bool :=
  match s.connectors[index]? with
  | none => (s, false)
  | some c =>
    let (c, succeeded) := call c
    ({ s with connectors := s.connectors.set index c }, succeeded)

def closes (s : Session) : Nat := s.connectors.foldl (fun n connector => n + connector.closes) 0

def predictions (s : Session) : List Prediction := s.reading.echo.overlay

def poll (s : Session) : Session × Bool :=
  let (stage, changed) := s.stage.poll
  (s.withStage stage, changed)

def tell (s : Session) (n : Notice) : NoticeListener → Session
  | .relay => { s with mailbox := s.mailbox.postEvent n.event }
  | .observer name => { s with observed := s.observed ++ [(name, n)] }
  | .silent => s

-- Changes of the screen have listeners of their own.
def listenersOf (s : Session) : Happening → Registry NoticeListener
  | .alternateChanged _ => s.screenListeners
  | .started _ _ => s.commandListeners
  | .finished _ => s.commandListeners
  | .cleared => s.commandListeners

def deliver (s : Session) (n : Notice) : Session :=
  (s.listenersOf n.happening).members.foldl (fun s listener => s.tell n listener) s

def addCommandListener (s : Session) (listener : NoticeListener) : Session × Nat :=
  let (listeners, id) := s.commandListeners.add listener
  ({ s with commandListeners := listeners }, id)

def addScreenListener (s : Session) (listener : NoticeListener) : Session × Nat :=
  let (listeners, id) := s.screenListeners.add listener
  ({ s with screenListeners := listeners }, id)

def addTerminationCallback (s : Session) (label : Text) : Session × Nat :=
  let (callbacks, id) := s.terminationCallbacks.add label
  ({ s with terminationCallbacks := callbacks }, id)

def removeCommandListener (s : Session) (id : Nat) : Session × Bool :=
  let (listeners, found) := s.commandListeners.remove id
  ({ s with commandListeners := listeners }, found)

def removeScreenListener (s : Session) (id : Nat) : Session × Bool :=
  let (listeners, found) := s.screenListeners.remove id
  ({ s with screenListeners := listeners }, found)

def removeTerminationCallback (s : Session) (id : Nat) : Session × Bool :=
  let (callbacks, found) := s.terminationCallbacks.remove id
  ({ s with terminationCallbacks := callbacks }, found)

end Session

end ShellTranscript
