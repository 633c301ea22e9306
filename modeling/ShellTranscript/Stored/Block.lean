import ShellTranscript.Stored.Instant
import ShellTranscript.Stored.Parts

-- Blocks as they are kept: with an identifier that is unique everywhere, and with the times at which
-- the command was started and finished.
namespace ShellTranscript

-- A universally unique identifier: a hundred and twenty-eight bits.
structure Uuid where
  bits : BitVec 128
deriving DecidableEq, Repr

namespace Uuid

-- So many hexadecimal digits of a number, the most significant one first.
def hexDigits : Nat → Nat → Text
  | 0, _ => []
  | count + 1, n => hexDigits count (n / 16) ++ [JsonValue.hexDigit n]

-- Five groups of digits with hyphens between them.
def write (id : Uuid) : Text :=
  let digits := hexDigits 32 id.bits.toNat
  digits.take 8 ++ ['-'] ++ (digits.drop 8).take 4 ++ ['-'] ++ (digits.drop 12).take 4 ++ ['-'] ++
    (digits.drop 16).take 4 ++ ['-'] ++ digits.drop 20

def ofDigits? (digits : Text) : Option Uuid :=
  if digits.length = 32 then
    (Text.Numeral.digits? Text.Numeral.hexDigit? 16 digits).map fun n => ⟨BitVec.ofNat 128 n⟩
  else none

-- The five groups.
def ofGroups? (t : Text) : Option Uuid :=
  let groups := Text.fields '-' t
  if groups.map List.length = [8, 4, 4, 4, 12] then ofDigits? groups.flatten else none

-- The groups may be in braces or have the name of their kind before them; without them there are
-- only digits.
def parse? (t : Text) : Option Uuid :=
  match t with
  | '{' :: rest => if rest.getLast? = some '}' then ofGroups? rest.dropLast else none
  | t =>
    match Text.dropBeginning? "urn:uuid:".toList t with
    | some groups => ofGroups? groups
    | none => ofGroups? t <|> ofDigits? t

end Uuid

structure StoredBlock where
  id : Uuid
  command : Option Text := none
  prompt : Option Text := none
  start : Nat
  commandStart : Nat
  outputStart : Nat
  stop : Nat
  isOpen : Bool
  exitCode : Option Int := none
  startedAt : Instant
  finishedAt : Option Instant := none
deriving DecidableEq, Repr

namespace StoredBlock

-- The milliseconds that the command ran.
def duration? (b : StoredBlock) : Option Int := b.finishedAt.map b.startedAt.millisUntil

def stateName (isOpen : Bool) : String := if isOpen then "Open" else "Closed"

def stateOfName? (name : Text) : Option Bool :=
  [true, false].find? fun isOpen => stateName isOpen == String.ofList name

def readState : JsonReader Bool := JsonReader.named stateOfName?

def blank : StoredBlock where
  id := ⟨0⟩
  start := 0
  commandStart := 0
  outputStart := 0
  stop := 0
  isOpen := true
  startedAt := ⟨0, 0, 0⟩

def fields : List (JsonField StoredBlock) :=
  [.of "id" (JsonReader.parsed Uuid.parse?) fun v b => { b with id := v },
    .of "command" (JsonReader.optional JsonReader.text)
      (fun v b => { b with command := v }) .fromObject,
    .of "prompt" (JsonReader.optional JsonReader.text)
      (fun v b => { b with prompt := v }) .fromObject,
    .of "start_offset" JsonReader.word fun v b => { b with start := v },
    .of "command_start_offset" JsonReader.word fun v b => { b with commandStart := v },
    .of "output_start_offset" JsonReader.word fun v b => { b with outputStart := v },
    .of "end_offset" JsonReader.word fun v b => { b with stop := v },
    .of "state" readState fun v b => { b with isOpen := v },
    .of "exit_code" (JsonReader.optional (JsonReader.integer (-0x80000000) 0x7FFFFFFF))
      (fun v b => { b with exitCode := v }) .fromObject,
    .of "started_at" (JsonReader.parsed Instant.parse?) fun v b => { b with startedAt := v },
    .of "finished_at" (JsonReader.optional (JsonReader.parsed Instant.parse?))
      (fun v b => { b with finishedAt := v }) .fromObject]

def read : JsonReader StoredBlock := JsonReader.record blank fields

def toJson (b : StoredBlock) : JsonValue :=
  .record [("id", .text b.id.write), ("command", .ofOption .text b.command),
    ("prompt", .ofOption .text b.prompt), ("start_offset", .ofNat b.start),
    ("command_start_offset", .ofNat b.commandStart), ("output_start_offset", .ofNat b.outputStart),
    ("end_offset", .ofNat b.stop), ("state", .name (stateName b.isOpen)),
    ("exit_code", .ofOption .number b.exitCode), ("started_at", .text b.startedAt.write),
    ("finished_at", .ofOption (fun t => .text t.write) b.finishedAt)]

end StoredBlock

end ShellTranscript
