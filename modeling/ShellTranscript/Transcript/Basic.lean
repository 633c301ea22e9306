import ShellTranscript.Document
import ShellTranscript.Transcript.Block

-- The transcript: a document and the blocks in it, in the order of their creation. A line feed that
-- belongs to no block separates a block from the one before. Every edit of a block moves the offsets
-- and spans of the blocks after it.
namespace ShellTranscript

-- Why an operation was refused. `badOffset` tells of an offset that is not in the document or lies
-- inside a character.
inductive Refusal where
  | noActiveBlock
  | blockStillOpen (id : Nat)
  | unknownBlock (id : Nat)
  | badOffset
deriving DecidableEq, Repr

-- `separatorPending` tells that the document already ends with the next block's separator.
structure Transcript where
  document : Document := {}
  blocks : List Block := []
  separatorPending : Bool := false
  nextId : Nat := 0
deriving Repr

namespace Transcript

def orBadOffset {α : Type} : Option α → Except Refusal α
  | some a => .ok a
  | none => .error .badOffset

def lastBlock? (t : Transcript) : Option Block := t.blocks.getLast?

-- The last block, if it is open.
def activeBlock? (t : Transcript) : Option Block := t.lastBlock?.filter Block.isOpen

def block? (t : Transcript) (id : Nat) : Option Block := t.blocks.find? fun b => b.id == id

def indexOf (t : Transcript) (id : Nat) : Except Refusal Nat :=
  match t.blocks.findIdx? fun b => b.id == id with
  | some index => .ok index
  | none => .error (.unknownBlock id)

-- The block and its place.
def locate (t : Transcript) (id : Nat) : Except Refusal (Nat × Block) := do
  let index ← t.indexOf id
  match t.blocks[index]? with
  | some b => .ok (index, b)
  | none => .error (.unknownBlock id)

def modifyAt (t : Transcript) (index : Nat) (f : Block → Block) : Transcript :=
  { t with blocks := t.blocks.modify index f }

-- Changes a block without touching the document.
def modifyBlock (t : Transcript) (id : Nat) (f : Block → Block) : Except Refusal Transcript := do
  let index ← t.indexOf id
  pure (t.modifyAt index f)

def shiftFrom (first : Nat) (delta : Int) (blocks : List Block) : List Block :=
  blocks.take first ++ (blocks.drop first).map (Block.shift delta)

-- Replaces a part of a block, whose end and all later blocks move by the difference of lengths.
def edit (t : Transcript) (index start stop : Nat) (inserted : Text) : Except Refusal Transcript := do
  let document ← orBadOffset (t.document.replace? start stop inserted)
  let delta : Int := (Text.byteLength inserted : Int) - ((stop - start : Nat) : Int)
  let blocks := shiftFrom (index + 1) delta (t.blocks.modify index (Block.moveStop delta))
  pure { t with document, blocks }

-- Opens a block at the end of the document, after a separator unless there is one already.
def createBlock (t : Transcript) (command prompt : Option Text) : Except Refusal (Nat × Transcript) :=
  match t.activeBlock? with
  | some b => .error (.blockStillOpen b.id)
  | none =>
    let document :=
      if t.document.text.isEmpty || t.separatorPending then t.document
      else t.document.append ['\n']
    let block := Block.opened t.nextId document.length command prompt
    .ok (t.nextId, { document, blocks := t.blocks ++ [block], nextId := t.nextId + 1 })

-- Puts a text at a block's end, and tells where it is. The prompt and the command push the starts
-- of the later parts past it.
def append (t : Transcript) (id : Nat) (inserted : Text) (part : BlockPart) :
    Except Refusal ((Nat × Nat) × Transcript) := do
  let (index, b) ← t.locate id
  let t ← t.edit index b.stop b.stop inserted
  pure ((b.stop, b.stop + Text.byteLength inserted), t.modifyAt index (Block.endPart part))

def replaceOutput (t : Transcript) (id : Nat) (output : Text) : Except Refusal Transcript := do
  let (index, b) ← t.locate id
  t.edit index b.outputStart b.stop output

-- Cuts a block off at an offset and drops the spans that reach past it.
def truncate (t : Transcript) (id stop : Nat) : Except Refusal Transcript := do
  let (index, b) ← t.locate id
  if b.stop < b.start then .error .badOffset
  else
    let stop := min (max stop b.start) b.stop
    let t ← t.edit index stop b.stop []
    pure (t.modifyAt index fun b =>
      { b.clampToStop with spans := b.spans.map fun spans => spans.filter fun s => s.stop ≤ stop })

-- Takes a block out together with the separator before it, or after it where nothing is before.
def remove (t : Transcript) (id : Nat) : Except Refusal Transcript := do
  let (index, b) ← t.locate id
  let (start, stop) :=
    if b.start > 0 then (b.start - 1, b.stop)
    else if index + 1 < t.blocks.length then (b.start, b.stop + 1)
    else (b.start, b.stop)
  let document ← orBadOffset (t.document.delete? start stop)
  let blocks := shiftFrom index (-((stop - start : Nat) : Int)) (t.blocks.eraseIdx index)
  pure { t with document, blocks }

def closeLast (t : Transcript) : Transcript := t.modifyAt (t.blocks.length - 1) Block.close

def finish (t : Transcript) (id : Nat) (exitCode : Int) : Except Refusal Transcript :=
  t.modifyBlock id (Block.finish exitCode)

-- The line feed is the next block's separator.
def appendLineBreak (t : Transcript) : Transcript :=
  { t with document := t.document.append ['\n'], separatorPending := true }

def clear (t : Transcript) : Transcript :=
  { t with document := t.document.clear, blocks := [], separatorPending := false }

def putSpans (t : Transcript) (id : Nat) (spans : List Span) : Except Refusal Transcript :=
  t.modifyBlock id fun b => { b with spans := some spans }

-- Every span of every block, block after block.
def allSpans (t : Transcript) : List Span := t.blocks.flatMap fun b => b.spans.getD []

-- A frame that is already there stays as it is.
def putFrame (t : Transcript) (id : Nat) (firstBlock : Bool) : Except Refusal Transcript :=
  t.modifyBlock id fun b => { b with frame := some (b.frame.getD { firstBlock }) }

-- Sets the state of the frame, which is put there first if need be.
def setFrameState (t : Transcript) (id : Nat) (state : FrameState) : Except Refusal Transcript := do
  let index ← t.indexOf id
  pure (t.modifyAt index fun b =>
    { b with frame := some { b.frame.getD { firstBlock := index == 0 } with state } })

-- The text of a block that is listed; `none` inside when its offsets are not in the document.
def blockText? (t : Transcript) (id : Nat) : Option (Option Text) :=
  (t.block? id).map fun b => t.document.slice? b.start b.stop

end Transcript

end ShellTranscript
