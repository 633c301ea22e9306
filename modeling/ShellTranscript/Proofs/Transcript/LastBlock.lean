import Mathlib.Tactic.Common
import ShellTranscript.Proofs.Transcript.Layout
import ShellTranscript.Transcript.Output

-- Operations on the last block of a transcript, when it ends where the text ends. Each of them
-- succeeds as long as the text has offsets, and changes nothing but the end of the text and that
-- block.
namespace ShellTranscript

open Text

def Block.endingAt (b : Block) (stop : Nat) : Block := { b with stop }

@[simp] theorem Block.endingAt_id (b : Block) (stop : Nat) : (b.endingAt stop).id = b.id := rfl

@[simp] theorem Block.endingAt_outputStart (b : Block) (stop : Nat) :
    (b.endingAt stop).outputStart = b.outputStart := rfl

@[simp] theorem Block.endingAt_frame (b : Block) (stop : Nat) :
    (b.endingAt stop).frame = b.frame := rfl

@[simp] theorem Block.fixedSpans_endingAt (b : Block) (stop : Nat) :
    (b.endingAt stop).fixedSpans = b.fixedSpans := rfl

-- A block that is cut off at an offset, without the spans that reach past it.
def Block.cutOff (b : Block) (stop : Nat) : Block :=
  { (b.endingAt stop).clampToStop with
    spans := b.spans.map fun spans => spans.filter fun s => s.stop ≤ stop }

-- Identities ascend, and the next one is above all of them.
structure Transcript.Numbered (t : Transcript) : Prop where
  ascending : (t.blocks.map Block.id).Pairwise (· < ·)
  below : ∀ b ∈ t.blocks, b.id < t.nextId

theorem Transcript.Numbered.of_ids {t t' : Transcript} (h : t.Numbered)
    (hids : t'.blocks.map Block.id = t.blocks.map Block.id) (hnext : t'.nextId = t.nextId) :
    t'.Numbered := by
  refine ⟨hids ▸ h.ascending, ?_⟩
  have hbelow : ∀ n ∈ t.blocks.map Block.id, n < t.nextId := by simpa using h.below
  intro b hb
  rw [hnext]
  exact hbelow b.id (hids ▸ List.mem_map_of_mem hb)

theorem Transcript.Numbered.block? {t : Transcript} (h : t.Numbered) {b : Block} (hb : b ∈ t.blocks) :
    t.block? b.id = some b := by
  have hids := h.ascending
  rw [Transcript.block?]
  generalize t.blocks = blocks at hb hids ⊢
  induction blocks with
  | nil => cases hb
  | cons c blocks ih =>
    rw [List.map_cons, List.pairwise_cons] at hids
    cases List.mem_cons.mp hb with
    | inl hfirst => rw [hfirst, List.find?_cons_of_pos (by simp)]
    | inr hlater =>
      have hlt := hids.1 b.id (List.mem_map_of_mem hlater)
      rw [List.find?_cons_of_neg (by simp; omega)]
      exact ih hlater hids.2

section Place

variable {t : Transcript} {front back : List Block} {b : Block}

theorem Transcript.Numbered.id_ne (h : t.Numbered) (hblocks : t.blocks = front ++ b :: back) :
    ∀ c ∈ front ++ back, c.id ≠ b.id := by
  have hids := h.ascending
  rw [hblocks, List.map_append, List.map_cons, List.pairwise_append, List.pairwise_cons] at hids
  intro c hc
  cases List.mem_append.mp hc with
  | inl hc =>
    have hlt := hids.2.2 c.id (List.mem_map_of_mem hc) b.id List.mem_cons_self
    omega
  | inr hc =>
    have hlt := hids.2.1.1 c.id (List.mem_map_of_mem hc)
    omega

theorem Transcript.Numbered.indexOf (h : t.Numbered) (hblocks : t.blocks = front ++ b :: back) :
    t.indexOf b.id = .ok front.length := by
  have hnone : front.findIdx? (fun c => c.id == b.id) = none := by
    rw [List.findIdx?_eq_none_iff]
    intro c hc
    simpa using h.id_ne hblocks c (List.mem_append_left _ hc)
  simp [Transcript.indexOf, hblocks, List.findIdx?_append, List.findIdx?_cons, hnone]

theorem Transcript.Numbered.locate (h : t.Numbered) (hblocks : t.blocks = front ++ b :: back) :
    t.locate b.id = .ok (front.length, b) := by
  simp [Transcript.locate, h.indexOf hblocks, hblocks, bind, Except.bind]

theorem Transcript.shiftFrom_append (front back : List Block) (delta : Int) :
    shiftFrom front.length delta (front ++ back) = front ++ back.map (Block.shift delta) := by
  rw [shiftFrom, List.take_left, List.drop_left]

theorem Transcript.shiftFrom_place (front back : List Block) (b : Block) (delta : Int) :
    shiftFrom (front.length + 1) delta (front ++ b :: back) =
      front ++ b :: back.map (Block.shift delta) := by
  have hmoved := shiftFrom_append (front ++ [b]) back delta
  rw [List.length_append, List.length_singleton] at hmoved
  simpa only [List.append_assoc, List.singleton_append] using hmoved

end Place

-- A part of a document's text replaced by another one.
theorem Document.replace?_part {d : Document} {front old back : Text}
    (htext : d.text = front ++ old ++ back) (new : Text) :
    ∃ d', d.replace? (byteLength front) (byteLength (front ++ old)) new = some d' ∧
      d'.text = front ++ new ++ back := by
  rw [Document.replace?]
  split
  · rename_i hempty
    have hold : old = [] := by
      rw [byteLength_append] at hempty
      exact byteLength_eq_zero_iff.mp (by omega)
    exact ⟨d, rfl, by rw [htext, hold, hempty.2]⟩
  · rw [htext, splice?_append front old back]
    exact ⟨_, rfl, rfl⟩

-- The same text and blocks; listeners may come and go.
structure Transcript.SameRecord (t t' : Transcript) : Prop where
  text : t'.document.text = t.document.text
  blocks : t'.blocks = t.blocks
  separatorPending : t'.separatorPending = t.separatorPending
  nextId : t'.nextId = t.nextId

theorem Transcript.SameRecord.numbered {t t' : Transcript} (h : t.SameRecord t')
    (hids : t.Numbered) : t'.Numbered := hids.of_ids (by rw [h.blocks]) h.nextId

-- A transcript with this text, which has offsets, whose last block ends where the text ends.
structure Transcript.EndsIn (t : Transcript) (whole : Text) (closed : List Block) (b : Block) :
    Prop where
  text : t.document.text = whole
  blocks : t.blocks = closed ++ [b]
  stop : b.stop = byteLength whole
  fits : byteLength whole ≤ maxOffset
  numbered : t.Numbered
  noSeparator : t.separatorPending = false

namespace Transcript.EndsIn

variable {t : Transcript} {whole front old : Text} {closed : List Block} {b : Block}

theorem of_sameRecord {t' : Transcript} (h : t.EndsIn whole closed b) (hsame : t.SameRecord t') :
    t'.EndsIn whole closed b :=
  ⟨hsame.text.trans h.text, hsame.blocks.trans h.blocks, h.stop, h.fits, hsame.numbered h.numbered,
    hsame.separatorPending.trans h.noSeparator⟩

theorem id_ne (h : t.EndsIn whole closed b) : ∀ c ∈ closed, c.id ≠ b.id := by
  intro c hc
  exact h.numbered.id_ne h.blocks c (List.mem_append_left _ hc)

theorem indexOf (h : t.EndsIn whole closed b) : t.indexOf b.id = .ok closed.length :=
  h.numbered.indexOf h.blocks

theorem locate (h : t.EndsIn whole closed b) : t.locate b.id = .ok (closed.length, b) :=
  h.numbered.locate h.blocks

theorem block? (h : t.EndsIn whole closed b) : t.block? b.id = some b := by
  have hnone : closed.find? (fun c => c.id == b.id) = none := by
    rw [List.find?_eq_none]
    intro c hc
    simpa using h.id_ne c hc
  simp [Transcript.block?, h.blocks, List.find?_append, hnone]

-- Changes of the last block alone.
theorem modifyAt (h : t.EndsIn whole closed b) {f : Block → Block} (hid : (f b).id = b.id)
    (hstop : (f b).stop = b.stop) : (t.modifyAt closed.length f).EndsIn whole closed (f b) := by
  have hblocks : (t.modifyAt closed.length f).blocks = closed ++ [f b] := by
    rw [Transcript.modifyAt, h.blocks, modify_append_cons]
  refine ⟨h.text, hblocks, hstop.trans h.stop, h.fits, h.numbered.of_ids ?_ rfl, h.noSeparator⟩
  simp [hblocks, h.blocks, hid]

theorem closeLast (h : t.EndsIn whole closed b) : t.closeLast.EndsIn whole closed b.close := by
  have hlast : t.blocks.length - 1 = closed.length := by simp [h.blocks]
  rw [Transcript.closeLast, hlast]
  exact h.modifyAt rfl rfl

theorem modifyBlock (h : t.EndsIn whole closed b) (f : Block → Block) :
    t.modifyBlock b.id f = .ok (t.modifyAt closed.length f) := by
  simp [Transcript.modifyBlock, h.indexOf, bind, Except.bind, pure, Except.pure]

-- The end of the text is replaced. Offsets stay exact as long as the new text has offsets.
theorem edit (h : t.EndsIn (front ++ old) closed b) {new : Text}
    (hfits : byteLength (front ++ new) ≤ maxOffset) :
    ∃ t', t.edit closed.length (byteLength front) b.stop new = .ok t' ∧
      t'.EndsIn (front ++ new) closed (b.endingAt (byteLength (front ++ new))) ∧
      t'.nextId = t.nextId := by
  have hwhole : t.document.text = front ++ old ++ [] := by rw [h.text, List.append_nil]
  obtain ⟨document, hdocument, htext⟩ := Document.replace?_part hwhole new
  rw [← h.stop] at hdocument
  rw [List.append_nil] at htext
  have hmoved : b.moveStop ((byteLength new : Int) - ((b.stop - byteLength front : Nat) : Int)) =
      b.endingAt (byteLength (front ++ new)) := by
    have hstop := h.stop
    rw [byteLength_append] at hstop hfits
    simp only [Block.moveStop, Block.endingAt, moveOffset, Block.mk.injEq, true_and, and_true,
      byteLength_append]
    omega
  refine ⟨{ t with
    document
    blocks := closed ++ [b.endingAt (byteLength (front ++ new))] }, ?_, ?_, rfl⟩
  · simp only [Transcript.edit, hdocument, orBadOffset, h.blocks, modify_append_cons, hmoved,
      shiftFrom_place, List.map_nil, bind, Except.bind, pure, Except.pure]
  · exact ⟨htext, rfl, rfl, hfits, h.numbered.of_ids (by simp [h.blocks, Block.endingAt]) rfl,
      h.noSeparator⟩

theorem append (h : t.EndsIn whole closed b) {inserted : Text} (part : BlockPart)
    (hfits : byteLength (whole ++ inserted) ≤ maxOffset) :
    ∃ range t', t.append b.id inserted part = .ok (range, t') ∧
      t'.EndsIn (whole ++ inserted) closed
        ((b.endingAt (byteLength (whole ++ inserted))).endPart part) ∧
      t'.nextId = t.nextId := by
  have hnothing : t.EndsIn (whole ++ []) closed b := by rwa [List.append_nil]
  obtain ⟨t', hedit, hends, hnext⟩ := hnothing.edit hfits
  rw [← h.stop] at hedit
  refine ⟨(b.stop, b.stop + byteLength inserted), t'.modifyAt closed.length (Block.endPart part),
    ?_, hends.modifyAt ?_ ?_, hnext⟩
  · simp only [Transcript.append, h.locate, hedit, bind, Except.bind, pure, Except.pure]
  · cases part <;> rfl
  · cases part <;> rfl

theorem replaceOutput (h : t.EndsIn (front ++ old) closed b)
    (hstart : b.outputStart = byteLength front) {new : Text}
    (hfits : byteLength (front ++ new) ≤ maxOffset) :
    ∃ t', t.replaceOutput b.id new = .ok t' ∧
      t'.EndsIn (front ++ new) closed (b.endingAt (byteLength (front ++ new))) ∧
      t'.nextId = t.nextId := by
  obtain ⟨t', hedit, hends, hnext⟩ := h.edit hfits
  refine ⟨t', ?_, hends, hnext⟩
  simpa only [Transcript.replaceOutput, h.locate, hstart, bind, Except.bind] using hedit

theorem truncate (h : t.EndsIn (front ++ old) closed b) (hstart : b.start ≤ byteLength front) :
    ∃ t', t.truncate b.id (byteLength front) = .ok t' ∧
      t'.EndsIn front closed (b.cutOff (byteLength front)) ∧ t'.nextId = t.nextId := by
  have hstop := h.stop
  have hfits := h.fits
  rw [byteLength_append] at hstop hfits
  have hcut : byteLength (front ++ []) ≤ maxOffset := by rw [List.append_nil]; omega
  obtain ⟨t', hedit, hends, hnext⟩ := h.edit hcut
  rw [List.append_nil] at hends
  have hwithin : min (max (byteLength front) b.start) b.stop = byteLength front := by omega
  refine ⟨t'.modifyAt closed.length fun b => { b.clampToStop with
      spans := b.spans.map fun spans => spans.filter fun s => s.stop ≤ byteLength front },
    ?_, hends.modifyAt rfl ?_, hnext⟩
  · have horder : ¬b.stop < b.start := by omega
    simp only [Transcript.truncate, h.locate, hwithin, hedit, if_neg horder, bind, Except.bind,
      pure, Except.pure]
  · rfl

theorem finish (h : t.EndsIn whole closed b) (exitCode : Int) :
    ∃ t', t.finish b.id exitCode = .ok t' ∧ t'.EndsIn whole closed (b.finish exitCode) ∧
      t'.nextId = t.nextId :=
  ⟨_, h.modifyBlock _, h.modifyAt rfl rfl, rfl⟩

theorem putSpans (h : t.EndsIn whole closed b) (spans : List Span) :
    ∃ t', t.putSpans b.id spans = .ok t' ∧
      t'.EndsIn whole closed { b with spans := some spans } ∧ t'.nextId = t.nextId :=
  ⟨_, h.modifyBlock _, h.modifyAt rfl rfl, rfl⟩

theorem frame (h : t.EndsIn whole closed b) :
    ∃ t', t.frame b.id = .ok t' ∧
      t'.EndsIn whole closed
        { b with frame := some (b.frame.getD { firstBlock := closed.isEmpty }) } ∧
      t'.nextId = t.nextId := by
  have hfirst : (t.blocks.length == 1) = closed.isEmpty := by
    rw [h.blocks]
    cases closed <;> simp
  refine ⟨t.modifyAt closed.length fun b =>
    { b with frame := some (b.frame.getD { firstBlock := closed.isEmpty }) },
    ?_, h.modifyAt rfl rfl, rfl⟩
  rw [Transcript.frame, Transcript.putFrame, h.modifyBlock, hfirst]

theorem setFrameState (h : t.EndsIn whole closed b) (state : FrameState) :
    ∃ t', t.setFrameState b.id state = .ok t' ∧
      t'.EndsIn whole closed
        { b with frame := some { b.frame.getD { firstBlock := closed.isEmpty } with state } } ∧
      t'.nextId = t.nextId := by
  have hfirst : (closed.length == 0) = closed.isEmpty := by cases closed <;> rfl
  refine ⟨t.modifyAt closed.length fun b =>
    { b with frame := some { b.frame.getD { firstBlock := closed.isEmpty } with state } },
    ?_, h.modifyAt rfl rfl, rfl⟩
  simp only [Transcript.setFrameState, h.indexOf, hfirst, bind, Except.bind, pure, Except.pure]

-- Taking the last block out takes along what separates it from the text before it.
theorem remove {before body : Text} (h : t.EndsIn (before ++ body) closed b)
    (hstart : b.start = byteLength before) (hbefore : before = [] ∨ ∃ s, before = s ++ ['\n']) :
    ∃ t', t.remove b.id = .ok t' ∧ t'.document.text = before.dropLast ∧ t'.blocks = closed ∧
      t'.Numbered ∧ t'.separatorPending = false ∧ t'.nextId = t.nextId := by
  obtain ⟨document, hdelete, htext⟩ : ∃ document,
      t.document.delete? (if 0 < b.start then b.start - 1 else b.start) b.stop = some document ∧
        document.text = before.dropLast := by
    have hstop := h.stop
    cases hbefore with
    | inl hnil =>
      subst hnil
      have hwhole : t.document.text = [] ++ body ++ [] := by rw [h.text, List.append_nil]
      obtain ⟨d, hd, htext⟩ := Document.replace?_part hwhole []
      refine ⟨d, ?_, htext⟩
      simpa [Document.delete?, hstart, hstop] using hd
    | inr hfeed =>
      obtain ⟨s, rfl⟩ := hfeed
      have hwhole : t.document.text = s ++ '\n' :: body ++ [] := by simp [h.text]
      obtain ⟨d, hd, htext⟩ := Document.replace?_part hwhole []
      refine ⟨d, ?_, by simpa using htext⟩
      have hfeed : byteLength ['\n'] = 1 := by decide
      rw [byteLength_append, hfeed] at hstart
      rw [if_pos (by omega), Document.delete?, hstop, hstart, Nat.add_sub_cancel]
      simpa using hd
  refine ⟨{ t with document, blocks := closed }, ?_, htext, rfl, ?_, h.noSeparator, rfl⟩
  · have hlast : ¬closed.length + 1 < t.blocks.length := by simp [h.blocks]
    have hlater := shiftFrom_append closed []
    simp only [List.append_nil, List.map_nil] at hlater
    have herase : t.blocks.eraseIdx closed.length = closed := by
      simp [h.blocks, List.eraseIdx_append_of_length_le]
    have hrange : (if 0 < b.start then (b.start - 1, b.stop) else (b.start, b.stop)) =
        ((if 0 < b.start then b.start - 1 else b.start), b.stop) := by split <;> rfl
    simp only [Transcript.remove, h.locate, gt_iff_lt, if_neg hlast, hrange, hdelete, orBadOffset,
      herase, hlater, bind, Except.bind, pure, Except.pure]
  · have hids := h.numbered
    refine ⟨?_, fun c hc => hids.below c (by simp [h.blocks, hc])⟩
    have hascending := hids.ascending
    rw [h.blocks, List.map_append, List.pairwise_append] at hascending
    exact hascending.1

end Transcript.EndsIn

end ShellTranscript
