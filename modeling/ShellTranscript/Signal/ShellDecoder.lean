import ShellTranscript.Signal.MarkerDecoder
import ShellTranscript.Signal.ModeDecoder

-- Shell integration: the markers and the mode switches of one byte stream, in stream order, and what
-- they tell about the shell.
namespace ShellTranscript

open Signal

inductive ShellNotice where
  | promptStart
  | commandStart
  | commandExecuted
  | commandFinished (exitCode : Int)
  | commandLine (line : Text)
  | workingDirectory (path : Text)
  | alternateBuffer (enabled : Bool)
  | cleared
deriving DecidableEq, Repr

namespace ShellNotice

-- A finish without an exit code counts as a success.
def ofMarker : Marker → ShellNotice
  | .workingDirectory path => .workingDirectory path
  | .promptStart => .promptStart
  | .commandStart => .commandStart
  | .commandExecuted => .commandExecuted
  | .commandFinished exitCode => .commandFinished (exitCode.getD 0)
  | .commandLine line => .commandLine line

def ofModeChange : ModeChange → ShellNotice
  | .alternateBuffer enabled => .alternateBuffer enabled
  | .clearScrollback => .cleared

end ShellNotice

-- Where the shell is in its cycle of prompt and command.
inductive CyclePhase where
  | unknown
  | prompt
  | input
  | running
deriving DecidableEq, Repr

def CyclePhase.name : CyclePhase → String
  | unknown => "Unknown"
  | prompt => "Prompt"
  | input => "Input"
  | running => "Running"

-- What the signals so far tell: the phase, the working directory, the last exit code, and the
-- command line the shell itself reported and nobody has taken yet.
structure ShellStatus where
  phase : CyclePhase := .unknown
  workingDirectory : Option Text := none
  lastExit : Option Int := none
  reportedCommand : Option Text := none
deriving DecidableEq, Repr

def ShellStatus.apply (s : ShellStatus) : ShellNotice → ShellStatus
  | .promptStart => { s with phase := .prompt }
  | .commandStart => { s with phase := .input }
  | .commandExecuted => { s with phase := .running }
  | .commandFinished exitCode => { s with phase := .prompt, lastExit := some exitCode }
  | .commandLine line => { s with reportedCommand := some line }
  | .workingDirectory path => { s with workingDirectory := some path }
  | .alternateBuffer _ => s
  | .cleared => s

structure ShellDecoder where
  markers : MarkerDecoder := .ground
  modes : ModeDecoder := {}
  shell : ShellStatus := {}
deriving DecidableEq, Repr

namespace ShellDecoder

-- One byte goes to both decoders; a marker that it completes comes before a mode switch.
def step (s : ShellDecoder) (b : UInt8) : ShellDecoder × List ShellNotice :=
  let (markers, found) := s.markers.step b
  let (modes, switched) := s.modes.step b
  let signals := found.map ShellNotice.ofMarker ++ switched.map ShellNotice.ofModeChange
  ({ markers, modes, shell := signals.foldl ShellStatus.apply s.shell }, signals)

def feed (s : ShellDecoder) (bytes : List UInt8) :
    ShellDecoder × List (Located ShellNotice) :=
  scan step s bytes

-- Takes the command line the shell reported, which is then no longer there.
def takeReportedCommand (s : ShellDecoder) : Option Text × ShellDecoder :=
  (s.shell.reportedCommand, { s with shell := { s.shell with reportedCommand := none } })

end ShellDecoder

end ShellTranscript
