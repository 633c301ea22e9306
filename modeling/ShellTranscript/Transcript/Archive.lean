import Std.Data.HashMap
import ShellTranscript.Transcript.Basic

-- The transcript as it is kept in memory. Spans and frames are no parts of the blocks there, they
-- are filed under the blocks' identities in two maps, and every operation says which of the entries
-- it moves, cuts down, adds or takes out.
namespace ShellTranscript

-- What the blocks of `base` hold of spans and frames is never looked at.
structure Archive where
  base : Transcript := {}
  spans : Std.HashMap Nat (List Span) := {}
  frames : Std.HashMap Nat Frame := {}

namespace Archive

-- A block with what is filed under its identity.
def fill (a : Archive) (b : Block) : Block :=
  { b with spans := a.spans[b.id]?, frame := a.frames[b.id]? }

-- The transcript that an archive stands for, whose blocks hold their spans and frames themselves.
def transcript (a : Archive) : Transcript := { a.base with blocks := a.base.blocks.map a.fill }

-- Every span that is filed under a listed block, block after block.
def allSpans (a : Archive) : List Span := a.base.blocks.flatMap fun b => (a.spans[b.id]?).getD []

def modifyAt (a : Archive) (index : Nat) (f : Block → Block) : Archive :=
  { a with base := a.base.modifyAt index f }

-- Moves what is filed under some blocks.
def moveSpans (delta : Int) (blocks : List Block) (spans : Std.HashMap Nat (List Span)) :
    Std.HashMap Nat (List Span) :=
  blocks.foldl (fun spans b => spans.modify b.id (List.map (Span.shift delta))) spans

-- A difference of nothing moves nothing, since no offset exceeds `maxOffset`.
def shiftFrom (a : Archive) (first : Nat) (delta : Int) : Archive :=
  { a with
    base := { a.base with blocks := Transcript.shiftFrom first delta a.base.blocks }
    spans := moveSpans delta (a.base.blocks.drop first) a.spans }

def edit (a : Archive) (index start stop : Nat) (inserted : Text) : Except Refusal Archive := do
  let document ← Transcript.orBadOffset (a.base.document.replace? start stop inserted)
  let delta : Int := (Text.byteLength inserted : Int) - ((stop - start : Nat) : Int)
  let a := { a with base := { a.base with document } }
  pure ((a.modifyAt index (Block.moveStop delta)).shiftFrom (index + 1) delta)

def createBlock (a : Archive) (command prompt : Option Text) : Except Refusal (Nat × Archive) := do
  let (id, base) ← a.base.createBlock command prompt
  pure (id, { a with base })

def append (a : Archive) (id : Nat) (inserted : Text) (part : BlockPart) :
    Except Refusal ((Nat × Nat) × Archive) := do
  let (index, b) ← a.base.locate id
  let a ← a.edit index b.stop b.stop inserted
  pure ((b.stop, b.stop + Text.byteLength inserted), a.modifyAt index (Block.endPart part))

def replaceOutput (a : Archive) (id : Nat) (output : Text) : Except Refusal Archive := do
  let (index, b) ← a.base.locate id
  a.edit index b.outputStart b.stop output

def truncate (a : Archive) (id stop : Nat) : Except Refusal Archive := do
  let (index, b) ← a.base.locate id
  if b.stop < b.start then .error .badOffset
  else
    let stop := min (max stop b.start) b.stop
    let a ← a.edit index stop b.stop []
    let a := a.modifyAt index Block.clampToStop
    pure { a with spans := a.spans.modify id fun spans => spans.filter fun s => s.stop ≤ stop }

-- Whatever is filed under a block goes with it.
def without (a : Archive) (document : Document) (index id : Nat) : Archive where
  base := { a.base with document, blocks := a.base.blocks.eraseIdx index }
  spans := a.spans.erase id
  frames := a.frames.erase id

def remove (a : Archive) (id : Nat) : Except Refusal Archive := do
  let (index, b) ← a.base.locate id
  let (start, stop) :=
    if b.start > 0 then (b.start - 1, b.stop)
    else if index + 1 < a.base.blocks.length then (b.start, b.stop + 1)
    else (b.start, b.stop)
  let document ← Transcript.orBadOffset (a.base.document.delete? start stop)
  pure ((a.without document index id).shiftFrom index (-((stop - start : Nat) : Int)))

def closeLast (a : Archive) : Archive := { a with base := a.base.closeLast }

def finish (a : Archive) (id : Nat) (exitCode : Int) : Except Refusal Archive := do
  let base ← a.base.finish id exitCode
  pure { a with base }

def appendLineBreak (a : Archive) : Archive := { a with base := a.base.appendLineBreak }

def clear (a : Archive) : Archive := { base := a.base.clear }

def putSpans (a : Archive) (id : Nat) (spans : List Span) : Except Refusal Archive := do
  let _ ← a.base.indexOf id
  pure { a with spans := a.spans.insert id spans }

def putFrame (a : Archive) (id : Nat) (firstBlock : Bool) : Except Refusal Archive := do
  let _ ← a.base.indexOf id
  pure { a with frames := a.frames.insertIfNew id { firstBlock } }

def setFrameState (a : Archive) (id : Nat) (state : FrameState) : Except Refusal Archive := do
  let index ← a.base.indexOf id
  let frames := a.frames.insertIfNew id { firstBlock := index == 0 }
  pure { a with frames := frames.modify id fun frame => { frame with state } }

end Archive

end ShellTranscript
