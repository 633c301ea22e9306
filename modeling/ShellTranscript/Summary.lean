import ShellTranscript.Session.Basic
import ShellTranscript.Text.Quoted
import ShellTranscript.TypedStore

-- One-line summaries of the parts, for logs.
namespace ShellTranscript

-- A name and its fields in braces.
def summary (name : String) (fields : List (String × String)) : String :=
  name ++ " \x7b " ++ ", ".intercalate (fields.map fun field => field.1 ++ ": " ++ field.2) ++ " \x7d"

def ScreenSize.summary (s : ScreenSize) : String :=
  ShellTranscript.summary "TermSize" [("columns", toString s.columns), ("rows", toString s.rows)]

def Terminal.summary (t : Terminal) : String :=
  ShellTranscript.summary "TerminalModel"
    [("size", t.size.summary), ("generation", toString t.generation), ("epoch", toString t.epoch)]

def Sampler.summary {α : Type} (s : Sampler α) : String :=
  ShellTranscript.summary "OutputScraper" [("listeners", toString s.listeners.size)]

def Registry.summary {α : Type} (r : Registry α) : String :=
  ShellTranscript.summary "ListenerList" [("len", toString r.size)]

def Document.summary (d : Document) : String :=
  ShellTranscript.summary "Document"
    [("len", toString d.length), ("listeners", toString d.listeners.size)]

def optional {α : Type} (describe : α → String) : Option α → String
  | none => "None"
  | some a => "Some(" ++ describe a ++ ")"

def RecorderState.name : RecorderState → String
  | .idle => "Idle"
  | .running => "CommandRunning"
  | .suspended => "Suspended"

def ScrollRequest.name : ScrollRequest → String
  | .caretCenterDown => "CaretCenterDown"
  | .bottom => "Bottom"

def Viewport.summary (v : Viewport) : String :=
  ShellTranscript.summary "Viewport" [("caret", toString v.caret),
    ("scroll_request", optional ScrollRequest.name v.scroll), ("disposed", toString v.disposed)]

def Recorder.summary (r : Recorder) : String :=
  ShellTranscript.summary "OutputController" [("state", r.state.name),
    ("blocks", toString r.transcript.blocks.length), ("block_epoch", optional toString r.epoch),
    ("viewport", r.viewport.summary)]

def Scope.summary {ε : Type} (s : Scope ε) : String :=
  ShellTranscript.summary "ListenerScope"
    [("closed", toString s.isClosed), ("teardown", toString s.pending.length)]

def Task.summary : Task → String
  | .event _ => "Event(..)"
  | .invoke _ => "Invoke(..)"

def Session.summary (s : Session) : String :=
  ShellTranscript.summary "TerminalSession" [("model", s.terminal.summary),
    ("started", toString s.isStarted), ("disposed", toString s.isDisposed)]

-- The names in quotes. Their order means nothing.
def TypedStore.summary {Kind : Type} {Value : Kind → Type} (s : TypedStore Kind Value) : String :=
  "\x7b" ++ ", ".intercalate (s.names.map fun name => String.ofList (Text.quoted name)) ++ "\x7d"

def TypedStore.keySummary (name : Text) : String := "ContextKey(" ++ String.ofList name ++ ")"

end ShellTranscript
