import ShellTranscript.Json.Record
import ShellTranscript.Json.Value
import ShellTranscript.Snapshot

-- The stored form of looks and snapshots: colours, styles, styled ranges, and what a terminal shows.
namespace ShellTranscript

-- A field whose value is put into the record.
def JsonField.of {α β : Type} (name : String) (read : JsonReader β) (put : β → α → α)
    (need : FieldNeed := .required) : JsonField α where
  name := name.toList
  need
  read := put <$> read

-- A choice among names without payload.
def JsonReader.named {α : Type} (ofName? : Text → Option α) : JsonReader α :=
  choice fun name => (ofName? name).map .plain

def JsonValue.record (fields : List (String × JsonValue)) : JsonValue :=
  object (fields.map fun field => (field.1.toList, field.2))

def JsonValue.name (name : String) : JsonValue := text name.toList

-- Offsets, epochs and times are words of sixty-four bits.
def JsonReader.word : JsonReader Nat := natural 64

namespace TextColor

def byte : JsonReader UInt8 := do
  let n ← JsonReader.natural 8
  pure (UInt8.ofNat n)

def name : TextColor → String
  | default => "Default"
  | plain hue => hue.name
  | bright hue => "Bright" ++ hue.name
  | indexed _ => "Indexed"
  | rgb _ _ _ => "Rgb"

-- The colours that are told by their names alone.
def simple : List TextColor := default :: Hue.all.map plain ++ Hue.all.map bright

structure Channels where
  red : UInt8 := 0
  green : UInt8 := 0
  blue : UInt8 := 0

def channels : List (JsonField Channels) :=
  [.of "red" byte fun c v => { v with red := c },
    .of "green" byte fun c v => { v with green := c },
    .of "blue" byte fun c v => { v with blue := c }]

def choice? (name : Text) : Option (JsonChoice TextColor) :=
  let name := String.ofList name
  if name == "Indexed" then some (.payload (indexed <$> byte))
  else if name == "Rgb" then
    some (.payload ((fun c => rgb c.red c.green c.blue) <$> JsonReader.tuple {} channels))
  else (simple.find? fun color => color.name == name).map .plain

def read : JsonReader TextColor := JsonReader.choice choice?

def toJson (color : TextColor) : JsonValue :=
  match color with
  | indexed n => .record [("Indexed", .ofNat n.toNat)]
  | rgb r g b => .record [("Rgb", .array [.ofNat r.toNat, .ofNat g.toNat, .ofNat b.toNat])]
  | color => .name color.name

end TextColor

namespace Appearance

def fields : List (JsonField Appearance) :=
  [.of "fg" TextColor.read fun v a => { a with fg := v },
    .of "bg" TextColor.read fun v a => { a with bg := v },
    .of "bold" JsonReader.bool fun v a => { a with bold := v },
    .of "italic" JsonReader.bool fun v a => { a with italic := v },
    .of "underline" JsonReader.bool fun v a => { a with underline := v },
    .of "inverse" JsonReader.bool fun v a => { a with inverse := v },
    .of "dim" JsonReader.bool fun v a => { a with dim := v },
    .of "strikeout" JsonReader.bool fun v a => { a with strikeout := v }]

def read : JsonReader Appearance := JsonReader.record {} fields

def toJson (a : Appearance) : JsonValue :=
  .record [("fg", a.fg.toJson), ("bg", a.bg.toJson), ("bold", .bool a.bold),
    ("italic", .bool a.italic), ("underline", .bool a.underline), ("inverse", .bool a.inverse),
    ("dim", .bool a.dim), ("strikeout", .bool a.strikeout)]

end Appearance

namespace StyledSpan

def fields : List (JsonField StyledSpan) :=
  [.of "start" JsonReader.word fun v s => { s with start := v },
    .of "end" JsonReader.word fun v s => { s with stop := v },
    .of "style" Appearance.read fun v s => { s with style := v }]

def read : JsonReader StyledSpan := JsonReader.record ⟨0, 0, {}⟩ fields

def toJson (s : StyledSpan) : JsonValue :=
  .record [("start", .ofNat s.start), ("end", .ofNat s.stop), ("style", s.style.toJson)]

end StyledSpan

namespace Snapshot

def fields : List (JsonField Snapshot) :=
  [.of "text" JsonReader.text fun v s => { s with text := v },
    .of "style_ranges" (JsonReader.list StyledSpan.read) fun v s => { s with ranges := v },
    .of "epoch" JsonReader.word fun v s => { s with epoch := v },
    .of "alternate" JsonReader.bool fun v s => { s with alternate := v }]

def read : JsonReader Snapshot := JsonReader.record {} fields

def toJson (s : Snapshot) : JsonValue :=
  .record [("text", .text s.text), ("style_ranges", .array (s.ranges.map StyledSpan.toJson)),
    ("epoch", .ofNat s.epoch), ("alternate", .bool s.alternate)]

end Snapshot

end ShellTranscript
