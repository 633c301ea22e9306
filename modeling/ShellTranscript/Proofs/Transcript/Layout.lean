import Mathlib.Data.List.Chain
import Mathlib.Tactic.Common
import ShellTranscript.Proofs.Text.Cut
import ShellTranscript.Transcript.Basic

-- How blocks lie in a document. A laid out document is built up from the left: a line feed that
-- belongs to no block, or a block behind a line feed or at the very start. From this follow the order
-- of all offsets, that they are cuts of the text, and that nothing but line feeds lies between the
-- blocks.
namespace ShellTranscript

open Text

-- A block that stands after some text and consists of a prompt, a command and an output.
structure Block.Covers (b : Block) (before prompt command output : Text) : Prop where
  start : b.start = byteLength before
  commandStart : b.commandStart = byteLength (before ++ prompt)
  outputStart : b.outputStart = byteLength (before ++ prompt ++ command)
  stop : b.stop = byteLength (before ++ prompt ++ command ++ output)

def AllClosed (blocks : List Block) : Prop := ∀ b ∈ blocks, b.isOpen = false

-- What stands between a text and the block behind it.
inductive Separates : Text → Text → Prop where
  | lineFeed (t : Text) : Separates t ['\n']
  | atStart : Separates [] []

-- Only the last block can be open, and then nothing stands behind it.
inductive Laid : Text → List Block → Prop where
  | empty : Laid [] []
  | lineFeed {t : Text} {blocks : List Block} :
      Laid t blocks → AllClosed blocks → Laid (t ++ ['\n']) blocks
  | block {t separator prompt command output : Text} {blocks : List Block} {b : Block} :
      Laid t blocks → AllClosed blocks → Separates t separator →
      b.Covers (t ++ separator) prompt command output →
      Laid (t ++ separator ++ prompt ++ command ++ output) (blocks ++ [b])

namespace Block.Covers

variable {b : Block} {before prompt command output : Text}

theorem ordered (h : b.Covers before prompt command output) :
    b.start ≤ b.commandStart ∧ b.commandStart ≤ b.outputStart ∧ b.outputStart ≤ b.stop := by
  simp only [h.start, h.commandStart, h.outputStart, h.stop, byteLength_append]
  omega

theorem isCut (h : b.Covers before prompt command output) :
    IsCut (before ++ prompt ++ command ++ output) b.start ∧
      IsCut (before ++ prompt ++ command ++ output) b.commandStart ∧
      IsCut (before ++ prompt ++ command ++ output) b.outputStart ∧
      IsCut (before ++ prompt ++ command ++ output) b.stop := by
  rw [h.start, h.commandStart, h.outputStart, h.stop]
  refine ⟨?_, ?_, ?_, ?_⟩
  · simpa only [List.append_assoc] using isCut_byteLength before (prompt ++ command ++ output)
  · simpa only [List.append_assoc] using isCut_byteLength (before ++ prompt) (command ++ output)
  · exact isCut_byteLength _ output
  · simpa only [List.append_nil] using
      isCut_byteLength (before ++ prompt ++ command ++ output) []

end Block.Covers

namespace Laid

variable {t : Text} {blocks : List Block}

theorem ordered (h : Laid t blocks) : ∀ b ∈ blocks,
    b.start ≤ b.commandStart ∧ b.commandStart ≤ b.outputStart ∧ b.outputStart ≤ b.stop ∧
      b.stop ≤ byteLength t := by
  induction h with
  | empty => simp
  | lineFeed _ _ ih =>
    intro b hb
    have := ih b hb
    rw [byteLength_append]
    omega
  | block _ _ _ hcovers ih =>
    intro b hb
    cases List.mem_append.mp hb with
    | inl hb =>
      have := ih b hb
      simp only [byteLength_append]
      omega
    | inr hb =>
      obtain rfl := List.mem_singleton.mp hb
      have := hcovers.ordered
      have := hcovers.stop
      omega

theorem isCut (h : Laid t blocks) : ∀ b ∈ blocks,
    IsCut t b.start ∧ IsCut t b.commandStart ∧ IsCut t b.outputStart ∧ IsCut t b.stop := by
  induction h with
  | empty => simp
  | lineFeed _ _ ih =>
    intro b hb
    obtain ⟨h1, h2, h3, h4⟩ := ih b hb
    exact ⟨h1.append _, h2.append _, h3.append _, h4.append _⟩
  | block _ _ _ hcovers ih =>
    intro b hb
    cases List.mem_append.mp hb with
    | inl hb =>
      obtain ⟨h1, h2, h3, h4⟩ := ih b hb
      simp only [List.append_assoc]
      exact ⟨h1.append _, h2.append _, h3.append _, h4.append _⟩
    | inr hb =>
      obtain rfl := List.mem_singleton.mp hb
      exact hcovers.isCut

-- Every block has a text.
theorem exists_slice? (h : Laid t blocks) :
    ∀ b ∈ blocks, ∃ part, slice? t b.start b.stop = some part := by
  induction h with
  | empty => simp
  | lineFeed _ _ ih =>
    intro b hb
    obtain ⟨part, hpart⟩ := ih b hb
    exact ⟨part, slice?_append_right hpart _⟩
  | @block t separator prompt command output _ b _ _ _ hcovers ih =>
    intro c hc
    cases List.mem_append.mp hc with
    | inl hc =>
      obtain ⟨part, hpart⟩ := ih c hc
      simp only [List.append_assoc]
      exact ⟨part, slice?_append_right hpart _⟩
    | inr hc =>
      obtain rfl := List.mem_singleton.mp hc
      have hslice := slice?_append (t ++ separator) (prompt ++ command ++ output) []
      refine ⟨prompt ++ command ++ output, ?_⟩
      rw [hcovers.start, hcovers.stop]
      simpa only [List.append_nil, List.append_assoc] using hslice

-- Each block ends before any later one starts.
theorem pairwise (h : Laid t blocks) :
    blocks.Pairwise fun earlier later => earlier.stop ≤ later.start := by
  induction h with
  | empty => exact .nil
  | lineFeed _ _ ih => exact ih
  | block hlaid _ _ hcovers ih =>
    refine List.pairwise_append.mpr ⟨ih, List.pairwise_singleton _ _, ?_⟩
    intro a ha b hb
    have hle := (hlaid.ordered a ha).2.2.2
    obtain rfl := List.mem_singleton.mp hb
    rw [hcovers.start, byteLength_append]
    omega

theorem isChain (h : Laid t blocks) : blocks.IsChain fun a b => a.stop ≤ b.start :=
  h.pairwise.isChain

theorem closed_dropLast (h : Laid t blocks) : AllClosed blocks.dropLast := by
  cases h with
  | empty => intro b hb; simp at hb
  | lineFeed _ hclosed => exact fun b hb => hclosed b (List.dropLast_subset _ hb)
  | block _ hclosed _ _ => simpa using hclosed

-- A byte that no block holds is a line feed.
theorem gap (h : Laid t blocks) {n : Nat} {byte : UInt8}
    (hbyte : (Utf8.encode t)[n]? = some byte)
    (hout : ∀ b ∈ blocks, ¬(b.start ≤ n ∧ n < b.stop)) : byte = 0x0A := by
  have hfeed : Utf8.encode ['\n'] = [0x0A] := by decide
  induction h with
  | empty => simp [Utf8.encode] at hbyte
  | @lineFeed t _ _ _ ih =>
    rw [encode_append, hfeed, List.getElem?_append] at hbyte
    split at hbyte
    · exact ih hbyte hout
    · exact List.mem_singleton.mp (List.mem_of_getElem? hbyte)
  | @block t separator prompt command output _ b _ _ hsep hcovers ih =>
    have hstart := hcovers.start
    have hstop := hcovers.stop
    have hb := hout b (by simp)
    have hlength := (List.getElem?_eq_some_iff.mp hbyte).1
    simp only [length_encode, byteLength_append] at hstart hstop hlength
    simp only [List.append_assoc] at hbyte
    rw [encode_append, List.getElem?_append, length_encode] at hbyte
    split at hbyte
    · exact ih hbyte fun c hc => hout c (by simp [hc])
    · rw [encode_append, List.getElem?_append, length_encode] at hbyte
      split at hbyte
      · cases hsep with
        | lineFeed =>
          rw [hfeed] at hbyte
          exact List.mem_singleton.mp (List.mem_of_getElem? hbyte)
        | atStart => simp [Utf8.encode] at hbyte
      · omega

end Laid

end ShellTranscript
