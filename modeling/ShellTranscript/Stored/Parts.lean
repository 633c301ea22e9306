import ShellTranscript.Stored.Look
import ShellTranscript.Transcript.Block

-- The stored form of the parts of a block: its spans and its frame.
namespace ShellTranscript

namespace SpanKind

def choice? (name : Text) : Option (JsonChoice SpanKind) :=
  match String.ofList name with
  | "Prompt" => some (.plain .prompt)
  | "Command" => some (.plain .command)
  | "Output" => some (.payload (output <$> Appearance.read))
  | _ => none

def read : JsonReader SpanKind := JsonReader.choice choice?

def toJson : SpanKind → JsonValue
  | prompt => .name "Prompt"
  | command => .name "Command"
  | output look => .record [("Output", look.toJson)]

end SpanKind

namespace Span

def fields : List (JsonField Span) :=
  [.of "start" JsonReader.word fun v s => { s with start := v },
    .of "end" JsonReader.word fun v s => { s with stop := v },
    .of "style" SpanKind.read fun v s => { s with kind := v }]

def read : JsonReader Span := JsonReader.record ⟨0, 0, .prompt⟩ fields

def toJson (s : Span) : JsonValue :=
  .record [("start", .ofNat s.start), ("end", .ofNat s.stop), ("style", s.kind.toJson)]

end Span

namespace FrameState

def name : FrameState → String
  | normal => "Normal"
  | error => "Error"

def ofName? (name : Text) : Option FrameState :=
  [normal, error].find? fun state => state.name == String.ofList name

def read : JsonReader FrameState := JsonReader.named ofName?

def toJson (state : FrameState) : JsonValue := .name state.name

end FrameState

namespace Frame

def fields : List (JsonField Frame) :=
  [.of "state" FrameState.read fun v f => { f with state := v },
    .of "first_block" JsonReader.bool fun v f => { f with firstBlock := v }]

def read : JsonReader Frame := JsonReader.record { firstBlock := false } fields

def toJson (f : Frame) : JsonValue :=
  .record [("state", f.state.toJson), ("first_block", .bool f.firstBlock)]

end Frame

end ShellTranscript
