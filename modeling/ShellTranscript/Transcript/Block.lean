import ShellTranscript.Appearance

-- Command blocks. A block is the prompt, the command and the output of one command, told by offsets
-- into the document: the prompt, the command and the output start in this order, and the output ends
-- where the block does.
namespace ShellTranscript

-- Prompts and commands are shown in the host's own styles; output keeps the terminal's.
inductive SpanKind where
  | prompt
  | command
  | output (look : Appearance)
deriving DecidableEq, Repr

-- The bytes `[start, stop)` of the document.
structure Span where
  start : Nat
  stop : Nat
  kind : SpanKind
deriving DecidableEq, Repr

inductive FrameState where
  | normal
  | error
deriving DecidableEq, Repr

-- The frame drawn around a block.
structure Frame where
  state : FrameState := .normal
  firstBlock : Bool
deriving DecidableEq, Repr

inductive BlockPart where
  | prompt
  | command
deriving DecidableEq, Repr

-- Spans and a frame are there once they have been put. `Archive` files them apart from the blocks.
structure Block where
  id : Nat
  command : Option Text
  prompt : Option Text
  start : Nat
  commandStart : Nat
  outputStart : Nat
  stop : Nat
  isOpen : Bool := true
  exitCode : Option Int := none
  isFinished : Bool := false
  spans : Option (List Span) := none
  frame : Option Frame := none
deriving DecidableEq, Repr

-- An offset moved by a difference of lengths; it stays within the offsets there are.
def moveOffset (offset : Nat) (delta : Int) : Nat := min ((offset : Int) + delta).toNat maxOffset

def Span.shift (delta : Int) (s : Span) : Span :=
  { s with start := moveOffset s.start delta, stop := moveOffset s.stop delta }

namespace Block

-- A new, open and empty block.
def opened (id offset : Nat) (command prompt : Option Text) : Block where
  id
  command
  prompt
  start := offset
  commandStart := offset
  outputStart := offset
  stop := offset

def shift (delta : Int) (b : Block) : Block :=
  { b with
    start := moveOffset b.start delta
    commandStart := moveOffset b.commandStart delta
    outputStart := moveOffset b.outputStart delta
    stop := moveOffset b.stop delta
    spans := b.spans.map fun spans => spans.map (Span.shift delta) }

def moveStop (delta : Int) (b : Block) : Block := { b with stop := moveOffset b.stop delta }

-- The inner offsets do not lie past the end.
def clampToStop (b : Block) : Block :=
  let outputStart := min b.outputStart b.stop
  { b with outputStart, commandStart := min b.commandStart outputStart }

-- Where the text of a part ends is where the parts after it start.
def endPart (part : BlockPart) (b : Block) : Block :=
  match part with
  | .prompt => { b with commandStart := b.stop, outputStart := b.stop }
  | .command => { b with outputStart := b.stop }

def close (b : Block) : Block := { b with isOpen := false }

def finish (exitCode : Int) (b : Block) : Block :=
  { b with isOpen := false, exitCode := some exitCode, isFinished := true }

-- The spans of the prompt and of the command.
def fixedSpans (b : Block) : List Span :=
  (b.prompt.map fun prompt =>
      (⟨b.start, b.start + Text.byteLength prompt, .prompt⟩ : Span)).toList ++
    (b.command.map fun command =>
      (⟨b.commandStart, b.commandStart + Text.byteLength command, .command⟩ : Span)).toList

end Block

end ShellTranscript
