import ShellTranscript.Snapshot
import ShellTranscript.Text.Blank
import ShellTranscript.Transcript.Basic

-- Writing a command into its block: the header with the prompt and the command, the output with its
-- styles, and the trimming when the command is over.
namespace ShellTranscript.Transcript

-- A prompt and a command stand on one line, which ends in a line feed; an empty one is none.
def writeHeader (t : Transcript) (id : Nat) (command prompt : Option Text) :
    Except Refusal Transcript := do
  match prompt, command with
  | some prompt, some command =>
    let (_, t) ← t.append id prompt .prompt
    let (_, t) ← t.append id (command ++ ['\n']) .command
    pure t
  | some prompt, none =>
    let (_, t) ← t.append id (prompt ++ ['\n']) .prompt
    pure t
  | none, some command =>
    let (_, t) ← t.append id (command ++ ['\n']) .command
    pure t
  | none, none => pure t

-- Puts a frame around a block, which knows whether it is the only one.
def frame (t : Transcript) (id : Nat) : Except Refusal Transcript :=
  t.putFrame id (t.blocks.length == 1)

def notEmpty (t : Option Text) : Option Text := t.filter fun t => !t.isEmpty

-- A new block with its header. It is framed at once if there is a header.
def start (t : Transcript) (command prompt : Option Text) : Except Refusal (Nat × Transcript) := do
  let command := notEmpty command
  let prompt := notEmpty prompt
  let (id, t) ← t.createBlock command prompt
  let t ← t.writeHeader id command prompt
  let (_, b) ← t.locate id
  let t ← t.putSpans id b.fixedSpans
  if prompt.isSome || command.isSome then
    let t ← t.frame id
    pure (id, t)
  else
    pure (id, t)

-- A styled range of the output as a span of the document, unless it would lie beyond all offsets.
def outputSpan (base : Nat) (range : StyledSpan) : Except Refusal Span :=
  if base + range.start ≤ maxOffset ∧ base + range.stop ≤ maxOffset then
    .ok ⟨base + range.start, base + range.stop, .output range.style⟩
  else
    .error .badOffset

-- Something to see: not blank, and not the lone percent sign that some shells print and erase.
def showsOutput (output : Text) : Bool :=
  let visible := Text.trim output
  !visible.isEmpty && visible != ['%']

-- Replaces a block's output by a snapshot's text and styles. A block without a frame gets one when
-- there is something to see.
def writeOutput (t : Transcript) (id : Nat) (output : Snapshot) : Except Refusal Transcript := do
  let t ← t.replaceOutput id output.text
  let (_, b) ← t.locate id
  let spans ← output.ranges.mapM (outputSpan b.outputStart)
  let t ← t.putSpans id (b.fixedSpans ++ spans)
  if b.frame.isNone && showsOutput output.text then t.frame id else pure t

-- Takes a blank last line away, with the line feed before it unless the line is the block's first.
def trimLastLine (t : Transcript) (id : Nat) : Except Refusal Transcript := do
  let (_, b) ← t.locate id
  let lineStart ← orBadOffset (t.document.lineStart? b.stop)
  let lineStart := max lineStart b.start
  let line ← orBadOffset (t.document.slice? lineStart b.stop)
  if (Text.trim line).isEmpty then
    t.truncate id (if lineStart > b.start then lineStart - 1 else lineStart)
  else
    pure t

-- Finishes a block: it is closed and trimmed, taken out if nothing but blanks is left, and marked if
-- its command failed.
def conclude (t : Transcript) (id : Nat) (exitCode : Int) : Except Refusal Transcript := do
  let t ← t.finish id exitCode
  let t ← t.trimLastLine id
  let (_, b) ← t.locate id
  let written ← orBadOffset (t.document.slice? b.start b.stop)
  if (Text.trim written).isEmpty then t.remove id
  else if exitCode ≠ 0 then t.setFrameState id .error
  else pure t

end ShellTranscript.Transcript
