import ShellTranscript.Session.Basic

-- Requests to the connection. A request waits until the session is started or disposed, and ends with
-- one result, which then stays.
namespace ShellTranscript.Session

def post (s : Session) (errand : Errand) : Session :=
  { s with requests := s.requests ++ [{ errand }] }

def setPhase (s : Session) (index : Nat) (phase : RequestPhase) : Session :=
  { s with requests := s.requests.modify index fun request => { request with phase } }

def resolve (s : Session) (index : Nat) (result : Delivery) : Session :=
  s.setPhase index (.resolved result)

-- A step of a request that has a connection.
def stepConnected (s : Session) (index connector : Nat) : Errand → Session
  | .write payload =>
    let (s, accepted) := s.callConnector connector fun c => c.write (some index) payload
    s.resolve index (if accepted then .delivered else .noTransport)
  | .resize size =>
    if s.terminal.size = size then s.resolve index .skipped
    else s.setPhase index (.differing connector)

-- A step of a resize that has dropped the predictions.
def stepUnpredicted (s : Session) (index connector : Nat) : Errand → Session
  | .write _ => s.resolve index .noTransport
  | .resize size =>
    let (s, accepted) := s.callConnector connector fun c => c.resize size
    if accepted then s.setPhase index .connectorResized else s.resolve index .noTransport

-- The last step of a resize.
def stepConnectorResized (s : Session) (index : Nat) : Errand → Session
  | .write _ => s.resolve index .noTransport
  | .resize size => (s.withTerminal (s.terminal.resize size)).resolve index .delivered

-- One step of a request.
def stepRequest (s : Session) (index : Nat) : Session :=
  match s.requests[index]? with
  | none => s
  | some request =>
    match request.phase with
    | .waiting =>
      match s.latch.answer? with
      | none => s
      | some none => s.resolve index .noTransport
      | some (some connector) => s.setPhase index (.connected connector)
    | .connected connector => s.stepConnected index connector request.errand
    | .differing connector => (s.modifyEcho EchoPredictor.clear).setPhase index (.unpredicted connector)
    | .unpredicted connector => s.stepUnpredicted index connector request.errand
    | .connectorResized => s.stepConnectorResized index request.errand
    | .resolved _ => s

-- Five steps take a request to its end, unless it has to wait.
def finishRequest (s : Session) (index : Nat) : Session :=
  (List.range 5).foldl (fun s _ => s.stepRequest index) s

def finishRequests (s : Session) : Session :=
  (List.range s.requests.length).foldl finishRequest s

def result? (s : Session) (index : Nat) : Option Delivery :=
  match s.requests[index]? with
  | some { phase := .resolved result, .. } => some result
  | _ => none

def resize (s : Session) (size : ScreenSize) : Session := s.post (.resize size)

-- Erases what was typed at the prompt.
def eraseLine : Char := '\x15'

def isLineEnd (c : Char) : Bool := c == '\r' || c == '\n'

-- Types a command line and Enter on an erased line. The command names the next block if the shell
-- does not show it.
def sendCommand (s : Session) (command : Text) : Session :=
  let command := Text.dropEndWhile isLineEnd command
  let label := Text.trim command
  let sentCommand := if label.isEmpty then none else some label
  { s with reading := { s.reading with sentCommand } }.post
    (.write (eraseLine :: command ++ ['\n']))

-- Types text, and predicts its echo where the shell has the main screen.
def typeKeys (s : Session) (typed : Text) : Session :=
  let s :=
    if s.isStarted && !s.terminal.isAlternate then
      s.modifyEcho fun echo => (echo.type typed s.terminal.cursorLine.2 s.steadyClock).2
    else s
  s.post (.write typed)

end ShellTranscript.Session
