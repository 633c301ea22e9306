import ShellTranscript.Echo.Predictor
import ShellTranscript.Event
import ShellTranscript.Signal.ShellDecoder
import ShellTranscript.Signal.TypedCommand

-- Reading the shell's output. The bytes of one read go to the terminal, and what the shell tells
-- between them is acted on at its place: commands start and finish, and the terminal is reset at both
-- moments.
namespace ShellTranscript

-- What listeners are told of the life of commands and of the screens.
inductive Happening where
  | started (command prompt : Option Text)
  | finished (exitCode : Int)
  | cleared
  | alternateChanged (enabled : Bool)
deriving DecidableEq, Repr

-- A happening, and the terminal as it can be read at that moment. A command has started after the
-- terminal was reset for it, and has finished before the terminal is reset again.
structure Notice where
  happening : Happening
  terminal : Terminal

-- The event that a recorder is told of.
def Notice.event (n : Notice) : Event :=
  match n.happening with
  | .started command prompt => .commandStarted command prompt n.terminal.epoch
  | .finished exitCode => .commandFinished exitCode n.terminal.snapshot
  | .cleared => .cleared
  | .alternateChanged enabled => .alternateChanged enabled

-- The prompt is the one shown when the shell last waited for a command. The command that was sent
-- last names the next one if nothing better does.
structure Reading where
  terminal : Terminal
  decoder : ShellDecoder := {}
  prompt : Option Text := none
  isRunning : Bool := false
  sentCommand : Option Text := none
  echo : EchoPredictor

namespace Reading

def print (r : Reading) (bytes : List UInt8) : Reading :=
  { r with terminal := r.terminal.write bytes }

def reset (r : Reading) : Reading := { r with terminal := r.terminal.clearAll }

-- The prompt is what stands before the cursor, unless that is blank.
def notePrompt (r : Reading) : Reading :=
  let shown := r.terminal.textToCursor
  { r with prompt := if (Text.trim shown).isEmpty then none else some shown }

-- A finish without a start is ignored.
def finishCommand (r : Reading) (exitCode : Int) : Reading × List Notice :=
  if r.isRunning then
    let r := { r with isRunning := false }
    (r.reset, [⟨.finished exitCode, r.terminal⟩])
  else (r, [])

-- The name of the command that starts: as the shell reported it, else as it was typed, else as it was
-- sent. All three are used up.
def takeCommand (r : Reading) : Option Text × Reading :=
  let (reported, decoder) := r.decoder.takeReportedCommand
  let typed := typedCommand r.terminal.plainText r.prompt
  (reported <|> typed <|> r.sentCommand, { r with decoder, sentCommand := none })

-- A command that still runs is finished first, with the last exit code there was.
def startCommand (r : Reading) : Reading × List Notice :=
  let (r, finished) :=
    if r.isRunning then r.finishCommand (r.decoder.shell.lastExit.getD 0) else (r, [])
  let (command, r) := r.takeCommand
  let prompt := r.prompt
  let r := { r with prompt := none, isRunning := true, echo := r.echo.clear }.reset
  (r, finished ++ [⟨.started command prompt, r.terminal⟩])

def act (r : Reading) : ShellNotice → Reading × List Notice
  | .promptStart => (r, [])
  | .commandStart => (r.notePrompt, [])
  | .commandExecuted => r.startCommand
  | .commandFinished exitCode => r.finishCommand exitCode
  | .commandLine _ => (r, [])
  | .workingDirectory _ => (r, [])
  | .alternateBuffer enabled =>
    ({ r with echo := r.echo.clear }, [⟨.alternateChanged enabled, r.terminal⟩])
  | .cleared => (r, [⟨.cleared, r.terminal⟩])

-- Prints bytes up to the places where the shell tells something, and acts there. `printed` is how
-- many bytes of the read have been printed.
def follow (r : Reading) (printed : Nat) (bytes : List UInt8) :
    List (Signal.Located ShellNotice) → Reading × List Notice
  | [] => (r.print bytes, [])
  | (stop, notice) :: rest =>
    let (r, first) := (r.print (bytes.take (stop - printed))).act notice
    let (r, more) := r.follow stop (bytes.drop (stop - printed)) rest
    (r, first ++ more)

-- Checks the predictions that are left against the cursor's row.
def reconcile (r : Reading) : Reading :=
  if r.echo.hasPending then
    let (row, column) := r.terminal.cursorLine
    { r with echo := r.echo.reconcile row column }
  else r

-- One read: everything the shell tells is decoded first and acted on then. The terminal's replies
-- are for the shell.
def read (r : Reading) (bytes : List UInt8) : Reading × List Notice × List Text :=
  let (decoder, found) := r.decoder.feed bytes
  let (r, notices) := { r with decoder }.follow 0 bytes found
  let (replies, terminal) := r.terminal.takeReplies
  ({ r with terminal }.reconcile, notices, replies)

end Reading

end ShellTranscript
