import Mathlib.Tactic.Common
import ShellTranscript.Proofs.Recorder.Backstage
import ShellTranscript.Proofs.Transcript.Conclusion

-- The two shapes of a recorder: at rest, with no open block, or recording into the last block, which
-- ends where the document does. A start leads from the first to the second, a finish back to the
-- first.
namespace ShellTranscript

open Text Transcript

-- Output written into a block changes nothing but its end, its spans and its frame. A frame that is
-- already there stays.
def Block.Continues (b b' : Block) : Prop :=
  ∃ stop spans frame, b' = { b with stop, spans, frame } ∧ (b.frame ≠ none → frame = b.frame)

theorem Block.Continues.refl (b : Block) : b.Continues b :=
  ⟨b.stop, b.spans, b.frame, rfl, fun _ => rfl⟩

theorem Block.Continues.trans {b b' b'' : Block} (h : b.Continues b') (h' : b'.Continues b'') :
    b.Continues b'' := by
  obtain ⟨_, _, first, rfl, hfirst⟩ := h
  obtain ⟨stop, spans, frame, rfl, hframe⟩ := h'
  refine ⟨stop, spans, frame, rfl, fun hb => ?_⟩
  have hkept := hfirst hb
  exact (hframe (hkept ▸ hb)).trans hkept

theorem Block.Continues.id_eq {b b' : Block} (h : b.Continues b') : b'.id = b.id := by
  obtain ⟨_, _, _, rfl, -⟩ := h
  rfl

theorem Block.Continues.prompt_eq {b b' : Block} (h : b.Continues b') : b'.prompt = b.prompt := by
  obtain ⟨_, _, _, rfl, -⟩ := h
  rfl

theorem Block.Continues.command_eq {b b' : Block} (h : b.Continues b') : b'.command = b.command := by
  obtain ⟨_, _, _, rfl, -⟩ := h
  rfl

theorem Block.Continues.frame_eq {b b' : Block} (h : b.Continues b') (hb : b.frame ≠ none) :
    b'.frame = b.frame := by
  obtain ⟨_, _, _, rfl, hframe⟩ := h
  exact hframe hb

theorem Block.continues_writtenWith (b : Block) (isFirst : Bool) (output : Text)
    (spans : List Span) : b.Continues (writtenWith b isFirst output spans) := by
  refine ⟨_, _, _, rfl, fun hb => ?_⟩
  cases hframe : b.frame with
  | none => exact absurd hframe hb
  | some frame => rfl

theorem Block.continues_writtenBlock (b : Block) (isFirst : Bool) (output : Snapshot) :
    b.Continues (writtenBlock b isFirst output) :=
  b.continues_writtenWith isFirst output.text (outputSpans b.outputStart output)

-- What was written before does not matter, but for the frame.
theorem Block.Continues.unframed_writtenBlock {b b' : Block} (h : b.Continues b') (isFirst : Bool)
    (output : Snapshot) :
    unframed (writtenBlock b' isFirst output) = unframed (writtenBlock b isFirst output) := by
  obtain ⟨_, _, _, rfl, -⟩ := h
  rfl

namespace Desk

structure Resting (d : Desk) : Prop where
  rests : d.recorder.transcript.Rests
  idle : d.recorder.state = .idle
  caret : d.recorder.viewport.caret = byteLength d.recorder.transcript.document.text

structure Recording (d : Desk) (before prompt command output : Text) (closed : List Block)
    (b : Block) : Prop where
  ends : d.recorder.transcript.EndsIn (before ++ prompt ++ command ++ output) closed b
  covers : b.Covers before prompt command output
  ready : Ready before closed
  isOpen : b.isOpen = true
  caret : d.recorder.viewport.caret = byteLength (before ++ prompt ++ command ++ output)

-- What a recorder is doing, and for whom.
structure SameCourse (d d' : Desk) : Prop where
  stage : d'.stage = d.stage
  state : d'.recorder.state = d.recorder.state
  epoch : d'.recorder.epoch = d.recorder.epoch
  disposed : d'.recorder.viewport.disposed = d.recorder.viewport.disposed
  nextId : d'.recorder.transcript.nextId = d.recorder.transcript.nextId

theorem SameCourse.refl (d : Desk) : d.SameCourse d := ⟨rfl, rfl, rfl, rfl, rfl⟩

section Shapes

variable {d d' : Desk} {before prompt command output : Text} {closed : List Block} {b : Block}

theorem Resting.activeBlock? (h : d.Resting) : d.recorder.transcript.activeBlock? = none :=
  activeBlock?_eq_none h.rests.closed

theorem Resting.activeId? (h : d.Resting) : d.activeId? = none := by
  rw [Desk.activeId?, Desk.transcript, h.activeBlock?, Option.map_none]

theorem Recording.activeBlock? (h : d.Recording before prompt command output closed b) :
    d.recorder.transcript.activeBlock? = some b := by
  simp [Transcript.activeBlock?, lastBlock?, h.ends.blocks, Option.filter, h.isOpen]

theorem Recording.activeId? (h : d.Recording before prompt command output closed b) :
    d.activeId? = some b.id := by
  rw [Desk.activeId?, Desk.transcript, h.activeBlock?, Option.map_some]

theorem Recording.length_eq (h : d.Recording before prompt command output closed b) :
    d.recorder.transcript.document.length = byteLength (before ++ prompt ++ command ++ output) := by
  rw [Document.length, h.ends.text]

-- What fits behind the document fits into the place of the output.
theorem Recording.fits_of_room (h : d.Recording before prompt command output closed b) {new : Text}
    (hroom : d.recorder.transcript.document.length + byteLength new ≤ maxOffset) :
    byteLength (before ++ prompt ++ command ++ new) ≤ maxOffset := by
  rw [h.length_eq, byteLength_append] at hroom
  rw [byteLength_append]
  omega

theorem Resting.congr (h : d.Resting)
    (hsame : d.recorder.transcript.SameRecord d'.recorder.transcript)
    (hstate : d'.recorder.state = d.recorder.state)
    (hcaret : d'.recorder.viewport.caret = d.recorder.viewport.caret) : d'.Resting :=
  ⟨h.rests.of_sameRecord hsame, hstate.trans h.idle, by rw [hcaret, hsame.text, h.caret]⟩

theorem Recording.congr (h : d.Recording before prompt command output closed b)
    (hsame : d.recorder.transcript.SameRecord d'.recorder.transcript)
    (hcaret : d'.recorder.viewport.caret = d.recorder.viewport.caret) :
    d'.Recording before prompt command output closed b :=
  ⟨h.ends.of_sameRecord hsame, h.covers, h.ready, h.isOpen, hcaret.trans h.caret⟩

theorem Backstage.sameRecord (h : d.Backstage d') :
    d.recorder.transcript.SameRecord d'.recorder.transcript := by
  rw [h.transcript]
  exact ⟨rfl, rfl, rfl, rfl⟩

theorem Resting.of_backstage (h : d.Resting) (hback : d.Backstage d') : d'.Resting :=
  h.congr hback.sameRecord hback.state (congrArg Viewport.caret hback.viewport)

theorem Recording.of_backstage (h : d.Recording before prompt command output closed b)
    (hback : d.Backstage d') : d'.Recording before prompt command output closed b :=
  h.congr hback.sameRecord (congrArg Viewport.caret hback.viewport)

end Shapes

section Output

variable {d : Desk} {before prompt command old : Text} {closed : List Block} {b : Block}
  {output : Snapshot}

-- Any other snapshot is dropped.
theorem applyOutput_dropped
    (h : ¬(d.recorder.viewport.disposed = false ∧ output.alternate = false ∧
      d.recorder.epoch = some output.epoch)) : d.applyOutput output = .done d := by
  unfold applyOutput
  split
  · rfl
  · rename_i hlooks
    split
    · rfl
    · split
      · rfl
      · rename_i hepoch
        simp only [Bool.or_eq_true, not_or, Bool.not_eq_true] at hlooks
        exact absurd ⟨hlooks.1, hlooks.2, not_not.mp hepoch⟩ h

-- A snapshot of the block's own epoch takes the place of the output so far.
theorem Recording.applyOutput_spans (h : d.Recording before prompt command old closed b)
    {spans : List Span} (hspans : output.ranges.mapM (outputSpan b.outputStart) = .ok spans)
    (hfits : byteLength (before ++ prompt ++ command ++ output.text) ≤ maxOffset)
    (hseen : d.recorder.viewport.disposed = false) (hmain : output.alternate = false)
    (hepoch : d.recorder.epoch = some output.epoch) :
    ∃ d', d.applyOutput output = .done d' ∧ d.SameCourse d' ∧
      d'.Recording before prompt command output.text closed
        (writtenWith b closed.isEmpty output.text spans) := by
  obtain ⟨t, hwrite, hends, hnext⟩ := h.ends.writeOutput_spans h.covers.outputStart hspans hfits
  have hblock := hends.block?
  have hid : (writtenWith b closed.isEmpty output.text spans).id = b.id := rfl
  rw [hid] at hblock
  refine ⟨(d.withTranscript t).showCaret ((d.withTranscript t).stopOf b.id), ?_,
    ⟨rfl, rfl, rfl, rfl, hnext⟩, hends, ⟨h.covers.start, h.covers.commandStart, h.covers.outputStart, ?_⟩,
    h.ready, h.isOpen, ?_⟩
  · simp only [applyOutput, hseen, hmain, h.activeId?, hepoch, Desk.transcript, hwrite,
      Bool.or_self, Bool.false_eq_true, if_false, ne_eq, not_true_eq_false]
  · rw [byteLength_append, ← h.covers.outputStart]
    rfl
  · have hstop : (d.withTranscript t).stopOf b.id =
        (writtenWith b closed.isEmpty output.text spans).stop := by
      simp only [stopOf, Desk.transcript, withTranscript, hblock, Option.map_some, Option.getD_some]
    exact hstop.trans hends.stop

theorem Recording.applyOutput_current (h : d.Recording before prompt command old closed b)
    (hinside : output.RangesInside)
    (hfits : byteLength (before ++ prompt ++ command ++ output.text) ≤ maxOffset)
    (hseen : d.recorder.viewport.disposed = false) (hmain : output.alternate = false)
    (hepoch : d.recorder.epoch = some output.epoch) :
    ∃ d', d.applyOutput output = .done d' ∧ d.SameCourse d' ∧
      d'.Recording before prompt command output.text closed
        (writtenBlock b closed.isEmpty output) := by
  have hroom : b.outputStart + byteLength output.text ≤ maxOffset := by
    rwa [h.covers.outputStart, ← byteLength_append]
  exact h.applyOutput_spans (mapM_outputSpans hinside hroom) hfits hseen hmain hepoch

-- A snapshot is written or dropped, unless its styles lie beyond all offsets.
theorem Recording.applyOutput_cases (h : d.Recording before prompt command old closed b)
    (hfits : byteLength (before ++ prompt ++ command ++ output.text) ≤ maxOffset) :
    (∃ d' spans, d.applyOutput output = .done d' ∧ d.SameCourse d' ∧
      output.ranges.mapM (outputSpan b.outputStart) = .ok spans ∧
      d.recorder.epoch = some output.epoch ∧
      d'.Recording before prompt command output.text closed
        (writtenWith b closed.isEmpty output.text spans)) ∨
      d.applyOutput output = .done d ∨ d.applyOutput output = .refused .badOffset d := by
  by_cases hcurrent : d.recorder.viewport.disposed = false ∧ output.alternate = false ∧
      d.recorder.epoch = some output.epoch
  · obtain ⟨hseen, hmain, hepoch⟩ := hcurrent
    rcases mapM_outputSpan_ok_or b.outputStart output.ranges with ⟨spans, hspans⟩ | hspans
    · obtain ⟨d', happly, hcourse, hrecording⟩ :=
        h.applyOutput_spans hspans hfits hseen hmain hepoch
      exact .inl ⟨d', spans, happly, hcourse, hspans, hepoch, hrecording⟩
    · have hrefused := h.ends.writeOutput_refused h.covers.outputStart hspans hfits
      refine .inr (.inr ?_)
      simp only [applyOutput, hseen, hmain, h.activeId?, hepoch, Desk.transcript, hrefused,
        Bool.or_self, Bool.false_eq_true, if_false, ne_eq, not_true_eq_false]
  · exact .inr (.inl (applyOutput_dropped hcurrent))

-- The output of the open block when a snapshot was written, or dropped.
def outputAfter (d : Desk) (old : Text) (output : Snapshot) : Text :=
  if d.recorder.viewport.disposed = false ∧ output.alternate = false ∧
      d.recorder.epoch = some output.epoch then output.text
  else old

theorem Recording.applyOutput_after (h : d.Recording before prompt command old closed b)
    (hinside : output.RangesInside) (hfits : d.recorder.epoch = some output.epoch →
      byteLength (before ++ prompt ++ command ++ output.text) ≤ maxOffset) :
    ∃ d' b', d.applyOutput output = .done d' ∧ d.SameCourse d' ∧
      d'.Recording before prompt command (d.outputAfter old output) closed b' ∧
      b.Continues b' := by
  by_cases hcurrent : d.recorder.viewport.disposed = false ∧ output.alternate = false ∧
      d.recorder.epoch = some output.epoch
  · obtain ⟨hseen, hmain, hepoch⟩ := hcurrent
    obtain ⟨d', happly, hcourse, hrecording⟩ :=
      h.applyOutput_current hinside (hfits hepoch) hseen hmain hepoch
    rw [outputAfter, if_pos ⟨hseen, hmain, hepoch⟩]
    exact ⟨d', _, happly, hcourse, hrecording, b.continues_writtenBlock _ _⟩
  · rw [outputAfter, if_neg hcurrent]
    exact ⟨d, b, applyOutput_dropped hcurrent, .refl d, h, .refl b⟩

theorem Recording.applyOutput (h : d.Recording before prompt command old closed b)
    (hinside : output.RangesInside) (hfits : d.recorder.epoch = some output.epoch →
      byteLength (before ++ prompt ++ command ++ output.text) ≤ maxOffset) :
    ∃ d' new b', d.applyOutput output = .done d' ∧ d.SameCourse d' ∧
      d'.Recording before prompt command new closed b' ∧ b.Continues b' := by
  obtain ⟨d', b', happly, hcourse, hrecording, hcontinues⟩ := h.applyOutput_after hinside hfits
  exact ⟨d', _, b', happly, hcourse, hrecording, hcontinues⟩

theorem Resting.applyOutput (h : d.Resting) (output : Snapshot) :
    d.applyOutput output = .done d := by
  simp only [Desk.applyOutput, h.activeId?, ite_self]

end Output

section Lifecycle

variable {d : Desk} {before prompt command old : Text} {closed : List Block} {b : Block}

-- The last block of a transcript is open, and snapshots for it are waited for.
def recordingOn (d : Desk) (t : Transcript) (epoch : Nat) : Desk :=
  { d with recorder := { d.recorder with
      transcript := t
      state := .running
      epoch := some epoch
      viewport := { d.recorder.viewport with
        caret := t.document.length
        scroll := some .caretCenterDown } } }

-- A start writes the header, and then what the terminal shows.
theorem Resting.startBlock_eq (h : d.Resting) (command prompt : Option Text) (epoch : Nat)
    (hheader : byteLength (d.recorder.transcript.opening ++
      header (notEmpty prompt) (notEmpty command)) ≤ maxOffset) :
    ∃ t, d.startBlock command prompt epoch =
        ((d.recordingOn t epoch).openScope d.recorder.transcript.nextId).applyOutput
          d.stage.terminal.snapshot ∧
      t.nextId = d.recorder.transcript.nextId + 1 ∧
      (d.recordingOn t epoch).Recording d.recorder.transcript.opening
        (headerParts (notEmpty prompt) (notEmpty command)).1
        (headerParts (notEmpty prompt) (notEmpty command)).2 [] d.recorder.transcript.blocks
        (d.recorder.transcript.startedBlock command prompt) := by
  obtain ⟨t, hstart, hends, hnext⟩ := h.rests.start command prompt hheader
  rw [← headerParts_append, ← List.append_assoc] at hends
  have hid : (d.recorder.transcript.startedBlock command prompt).id =
      d.recorder.transcript.nextId := rfl
  have hblock := hends.block?
  rw [hid] at hblock
  have hlength : (d.recorder.transcript.startedBlock command prompt).stop = t.document.length := by
    rw [hends.stop, Document.length, hends.text]
  have hterminal := (backstage_openScope (d.recordingOn t epoch)
    d.recorder.transcript.nextId).terminal
  refine ⟨t, ?_, hnext, ?_⟩
  · have hsnapshot : d.stage.terminal.snapshot = ((d.recordingOn t epoch).openScope
        d.recorder.transcript.nextId).stage.terminal.snapshot := by
      rw [hterminal]
      rfl
    rw [hsnapshot]
    simp only [Desk.startBlock, Desk.transcript, hstart, stopOf, withTranscript, modifyRecorder,
      hblock, Option.map_some, Option.getD_some, hlength]
    rfl
  · rw [← List.append_nil (_ ++ _ ++ _)] at hends
    exact ⟨hends, startedBlock_covers _ _ _, h.rests.ready, rfl, hlength.symm.trans hends.stop⟩

theorem Resting.startBlock (h : d.Resting) (command prompt : Option Text) (epoch : Nat)
    (hheader : byteLength (d.recorder.transcript.opening ++
      header (notEmpty prompt) (notEmpty command)) ≤ maxOffset)
    (hfits : d.stage.terminal.epoch = epoch → byteLength (d.recorder.transcript.opening ++
      header (notEmpty prompt) (notEmpty command) ++ d.stage.terminal.snapshot.text) ≤ maxOffset) :
    ∃ d' output b, d.startBlock command prompt epoch = .done d' ∧
      d'.Recording d.recorder.transcript.opening
        (headerParts (notEmpty prompt) (notEmpty command)).1
        (headerParts (notEmpty prompt) (notEmpty command)).2 output d.recorder.transcript.blocks b ∧
      (d.recorder.transcript.startedBlock command prompt).Continues b ∧
      d'.recorder.state = .running ∧ d'.recorder.epoch = some epoch ∧
      d'.recorder.viewport.disposed = d.recorder.viewport.disposed := by
  obtain ⟨t, hstart, -, hrecording⟩ := h.startBlock_eq command prompt epoch hheader
  have hback := backstage_openScope (d.recordingOn t epoch) d.recorder.transcript.nextId
  rw [← headerParts_append, ← List.append_assoc] at hfits
  obtain ⟨d', output, b, happly, hcourse, hrecording', hcontinues⟩ :=
    (hrecording.of_backstage hback).applyOutput d.stage.terminal.snapshot_rangesInside
      fun hepoch => hfits (Option.some.inj (hback.epoch.symm.trans hepoch)).symm
  refine ⟨d', output, b, hstart.trans happly, hrecording', hcontinues, ?_, ?_, ?_⟩
  · rw [hcourse.state, hback.state]
    rfl
  · rw [hcourse.epoch, hback.epoch]
    rfl
  · rw [hcourse.disposed, hback.viewport]
    rfl

theorem Resting.startBlock_of_room (h : d.Resting) (command prompt : Option Text) (epoch : Nat)
    (hroom : d.recorder.transcript.document.length + (byteLength (command.getD []) +
      byteLength (prompt.getD [])) + byteLength d.stage.terminal.snapshot.text + 2 ≤ maxOffset) :
    ∃ d' output b, d.startBlock command prompt epoch = .done d' ∧
      d'.Recording d.recorder.transcript.opening
        (headerParts (notEmpty prompt) (notEmpty command)).1
        (headerParts (notEmpty prompt) (notEmpty command)).2 output
        d.recorder.transcript.blocks b := by
  have hopening := byteLength_opening_le d.recorder.transcript
  have hheader := byteLength_header_le prompt command
  obtain ⟨d', output, b, hstart, hrecording, -⟩ := h.startBlock command prompt epoch (by
    rw [byteLength_append]
    omega) fun _ => by
      rw [byteLength_append, byteLength_append]
      omega
  exact ⟨d', output, b, hstart, hrecording⟩

theorem Recording.startBlock_refused (h : d.Recording before prompt command old closed b)
    (command' prompt' : Option Text) (epoch : Nat) :
    d.startBlock command' prompt' epoch = .refused (.blockStillOpen b.id) d := by
  simp only [Desk.startBlock, Desk.transcript, Transcript.start, createBlock, h.activeBlock?,
    bind, Except.bind]

-- At rest with a transcript, and nothing to take snapshots for.
def restingOn (d : Desk) (t : Transcript) : Desk :=
  { d with recorder := { d.recorder with
      transcript := t
      state := .idle
      epoch := none
      viewport := { d.recorder.viewport with caret := t.document.length } } }

theorem resting_restingOn (d : Desk) {t : Transcript} (h : t.Rests) : (d.restingOn t).Resting :=
  ⟨h, rfl, rfl⟩

-- A finish writes the last snapshot, if there is one, and concludes the block.
theorem Recording.finishBlock_of_written (h : d.Recording before prompt command old closed b)
    {d₁ : Desk} {new : Text} {b' : Block} (exitCode : Int) (output : Option Snapshot)
    (hwritten : (match output with
      | some output => d.closeCurrentScope.applyOutput output
      | none => .done d.closeCurrentScope) = .done d₁)
    (hrecording : d₁.Recording before prompt command new closed b') (hid : b'.id = b.id) :
    ∃ t, d.finishBlock exitCode output = .done (d₁.restingOn t) ∧
      t.document.text = concludedText before (prompt ++ command ++ new) ∧
      t.blocks = concludedBlocks closed b' (prompt ++ command ++ new) exitCode ∧
      t.Rests ∧ t.separatorPending = false ∧ t.nextId = d₁.recorder.transcript.nextId := by
  obtain ⟨t, hconclude, htext, hblocks, hrests, hpending, hnext⟩ :=
    hrecording.ends.conclude hrecording.covers hrecording.ready exitCode
  refine ⟨t, ?_, htext, hblocks, hrests, hpending, hnext⟩
  have hactive := (h.of_backstage (backstage_closeCurrentScope d)).activeId?
  rw [hid] at hconclude
  cases output with
  | none =>
    simp only [Outcome.done.injEq] at hwritten
    subst hwritten
    simp only [Desk.finishBlock, hactive, Outcome.andThen, Desk.transcript, modifyRecorder,
      hconclude]
    rfl
  | some output =>
    simp only at hwritten
    simp only [Desk.finishBlock, hactive, hwritten, Outcome.andThen, Desk.transcript,
      modifyRecorder, hconclude]
    rfl

theorem Recording.finishBlock_current (h : d.Recording before prompt command old closed b)
    {output : Snapshot} (hinside : output.RangesInside)
    (hfits : byteLength (before ++ prompt ++ command ++ output.text) ≤ maxOffset)
    (hseen : d.recorder.viewport.disposed = false) (hmain : output.alternate = false)
    (hepoch : d.recorder.epoch = some output.epoch) (exitCode : Int) :
    ∃ d', d.finishBlock exitCode (some output) = .done d' ∧ d'.Resting ∧
      d'.recorder.transcript.document.text =
        concludedText before (prompt ++ command ++ output.text) ∧
      d'.recorder.transcript.blocks = concludedBlocks closed
        (writtenBlock b closed.isEmpty output) (prompt ++ command ++ output.text) exitCode ∧
      d'.recorder.transcript.separatorPending = false ∧
      d'.recorder.viewport.disposed = false := by
  have hback := backstage_closeCurrentScope d
  obtain ⟨d₁, happly, hcourse, hrecording⟩ := (h.of_backstage hback).applyOutput_current hinside
    hfits (hback.viewport ▸ hseen) hmain (hback.epoch.trans hepoch)
  obtain ⟨t, hfinish, htext, hblocks, hrests, hpending, -⟩ :=
    h.finishBlock_of_written exitCode (some output) happly hrecording rfl
  refine ⟨_, hfinish, resting_restingOn d₁ hrests, htext, hblocks, hpending, ?_⟩
  exact hcourse.disposed.trans (hback.viewport ▸ hseen)

theorem Recording.finishBlock (h : d.Recording before prompt command old closed b)
    (exitCode : Int) {output : Snapshot} (hinside : output.RangesInside)
    (hfits : byteLength (before ++ prompt ++ command ++ output.text) ≤ maxOffset) :
    ∃ d', d.finishBlock exitCode (some output) = .done d' ∧ d'.Resting := by
  obtain ⟨d₁, new, b', happly, -, hrecording, hcontinues⟩ :=
    (h.of_backstage (backstage_closeCurrentScope d)).applyOutput hinside fun _ => hfits
  obtain ⟨t, hfinish, -, -, hrests, -⟩ :=
    h.finishBlock_of_written exitCode (some output) happly hrecording hcontinues.id_eq
  exact ⟨_, hfinish, resting_restingOn d₁ hrests⟩

-- Where no block is open, there is nothing to finish.
theorem Resting.finishBlock_refused (h : d.Resting) (exitCode : Int) (output : Option Snapshot) :
    ∃ d', d.finishBlock exitCode output = .refused .noActiveBlock d' ∧ d'.Resting ∧
      d.recorder.transcript.SameRecord d'.recorder.transcript := by
  have hback := backstage_closeCurrentScope d
  have hclosed := h.of_backstage hback
  refine ⟨d.closeCurrentScope.modifyRecorder fun r => { r with state := .idle, epoch := none },
    ?_, ⟨hclosed.rests, rfl, hclosed.caret⟩, hback.sameRecord⟩
  simp only [Desk.finishBlock, hclosed.activeId?, Outcome.andThen]

-- A finish without a snapshot does not make the document longer.
theorem Recording.finishBlock_none (h : d.Recording before prompt command old closed b)
    (exitCode : Int) :
    ∃ d', d.finishBlock exitCode none = .done d' ∧ d'.Resting ∧
      d'.stage.terminal = d.stage.terminal ∧
      d'.recorder.transcript.document.length ≤ d.recorder.transcript.document.length := by
  have hback := backstage_closeCurrentScope d
  obtain ⟨t, hfinish, htext, -, hrests, -⟩ :=
    h.finishBlock_of_written exitCode none rfl (h.of_backstage hback) rfl
  refine ⟨_, hfinish, resting_restingOn _ hrests, hback.terminal, ?_⟩
  have hle := byteLength_concludedText_le before (prompt ++ command ++ old)
  rw [← htext] at hle
  rw [h.length_eq, List.append_assoc before, List.append_assoc before]
  exact hle

end Lifecycle

end Desk

end ShellTranscript
