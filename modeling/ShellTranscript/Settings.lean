import ShellTranscript.Stored.Look
import ShellTranscript.Text.Utf8

-- The settings of a session. They are read from JSON, where every setting may be left out and unknown
-- ones are passed over.
namespace ShellTranscript

-- How long typed text is shown before the shell has echoed it. Times are milliseconds.
structure EchoSettings where
  enabled : Bool := true
  quietPeriod : Nat := 1500
  longestWait : Nat := 3000
deriving DecidableEq, Repr

-- Without a shell of its own a session starts the user's.
structure Settings where
  columns : Nat := 80
  rows : Nat := 24
  scrollback : Nat := 5000
  sampleInterval : Nat := 10
  shell : Option Text := none
  echo : EchoSettings := {}
deriving DecidableEq, Repr

namespace EchoSettings

-- The longest wait is never shorter than the quiet period.
def effectiveWait (s : EchoSettings) : Nat := max s.longestWait s.quietPeriod

def fields : List (JsonField EchoSettings) :=
  [.of "enabled" JsonReader.bool (fun v s => { s with enabled := v }) .always,
    .of "debounce_ms" JsonReader.word (fun v s => { s with quietPeriod := v }) .always,
    .of "max_delay_ms" JsonReader.word (fun v s => { s with longestWait := v }) .always]

def read : JsonReader EchoSettings := JsonReader.record {} fields

def toJson (s : EchoSettings) : JsonValue :=
  .record [("enabled", .bool s.enabled), ("debounce_ms", .ofNat s.quietPeriod),
    ("max_delay_ms", .ofNat s.longestWait)]

end EchoSettings

namespace Settings

def size (s : Settings) : ScreenSize := .new s.columns s.rows

def fields : List (JsonField Settings) :=
  [.of "columns" (JsonReader.natural 16) (fun v s => { s with columns := v }) .always,
    .of "rows" (JsonReader.natural 16) (fun v s => { s with rows := v }) .always,
    .of "scrollback_lines" JsonReader.word (fun v s => { s with scrollback := v }) .always,
    .of "scrape_interval_ms" JsonReader.word (fun v s => { s with sampleInterval := v }) .always,
    .of "shell" (JsonReader.optional JsonReader.text) (fun v s => { s with shell := v }) .always,
    .of "typeahead" EchoSettings.read (fun v s => { s with echo := v }) .always]

def read : JsonReader Settings := JsonReader.record {} fields

def toJson (s : Settings) : JsonValue :=
  .record [("columns", .ofNat s.columns), ("rows", .ofNat s.rows),
    ("scrollback_lines", .ofNat s.scrollback), ("scrape_interval_ms", .ofNat s.sampleInterval),
    ("shell", .ofOption .text s.shell), ("typeahead", s.echo.toJson)]

def ofJson (t : Text) : Except JsonFault Settings := JsonReader.readAll read t

-- Why the settings in a file could not be read.
inductive FileFault where
  | notFound
  | notText
  | json (fault : JsonFault)
deriving DecidableEq, Repr

-- The settings in a file with this content, if there is such a file.
def ofFile (content : Option (List UInt8)) : Except FileFault Settings :=
  match content with
  | none => .error .notFound
  | some bytes =>
    match Text.Utf8.decode? bytes with
    | none => .error .notText
    | some t =>
      match ofJson t with
      | .ok settings => .ok settings
      | .error fault => .error (.json fault)

end Settings

end ShellTranscript
