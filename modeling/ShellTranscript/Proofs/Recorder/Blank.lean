import Mathlib.Tactic.Common
import ShellTranscript.Proofs.Recorder.Flush
import ShellTranscript.Proofs.Text.Trim

-- Commands that leave nothing but blanks. The block of such a command is taken out again, together
-- with the line feed that it stands behind. Where the start put that line feed there, nothing remains
-- of the command. Where it was there before as an empty line, it is lost.
namespace ShellTranscript

open Text Transcript

theorem Text.trim_dropBlankLine_eq_nil {t : Text} (h : trim t = []) :
    trim (dropBlankLine t) = [] := by
  obtain ⟨rest, hrest⟩ := dropBlankLine_prefix t
  refine trim_eq_nil fun c hc => ?_
  have hmem : c ∈ t := by
    rw [hrest]
    exact List.mem_append_left rest hc
  cases hblank : isBlank c with
  | true => rfl
  | false => exact absurd h (trim_ne_nil hmem hblank)

-- Whatever separates the next block from the text goes with that block. It belongs to the text only
-- where it was there before.
theorem Transcript.Rests.dropLast_opening {t : Transcript} (h : t.Rests) :
    t.document.text = t.opening.dropLast ++ if t.separatorPending then ['\n'] else [] := by
  rw [opening]
  cases hpending : t.separatorPending with
  | true =>
    obtain ⟨s, hs, -⟩ := h.separator hpending
    simp [hs]
  | false => by_cases htext : t.document.text = [] <;> simp [htext]

namespace Call

-- The calls that open a block.
def Starts : Call → Prop
  | startCommand _ _ => True
  | handle (.commandStarted _ _ _) => True
  | _ => False

-- What a call that closes a block writes into it before.
def lastSnapshot? (d : Desk) : Call → Option Snapshot
  | finishCommand _ => some d.stage.terminal.snapshot
  | handle (.commandFinished _ output) => some output
  | _ => none

theorem lastSnapshot?_fits {d : Desk} {c : Call} {final : Snapshot}
    (hfinal : c.lastSnapshot? d = some final) (hinside : c.RangesInside) (hfits : c.Fits d) :
    final.RangesInside ∧
      d.recorder.transcript.document.length + byteLength final.text ≤ maxOffset := by
  unfold lastSnapshot? at hfinal
  unfold Fits at hfits
  split at hfinal
  · cases hfinal
    simp only [bytes] at hfits
    exact ⟨Terminal.snapshot_rangesInside _, by omega⟩
  · cases hfinal
    simp only [bytes, Event.bytes] at hfits
    exact ⟨hinside, by omega⟩
  · cases hfinal

end Call

namespace Desk

-- The text of the open block.
def openText? (d : Desk) : Option Text := (d.activeId?.bind d.transcript.blockText?).join

-- The same document and the same blocks, with their offsets, their spans and their frames.
structure Untraced (d d' : Desk) : Prop where
  text : d'.recorder.transcript.document.text = d.recorder.transcript.document.text
  blocks : d'.recorder.transcript.blocks = d.recorder.transcript.blocks

section Finish

variable {d : Desk} {before prompt command old : Text} {closed : List Block} {b : Block}

theorem Recording.openText? (h : d.Recording before prompt command old closed b) :
    d.openText? = some (prompt ++ command ++ old) := by
  have hslice := slice?_append before (prompt ++ command ++ old) []
  rw [List.append_nil, ← List.append_assoc, ← List.append_assoc, ← h.covers.stop,
    ← h.covers.start] at hslice
  simp only [Desk.openText?, h.activeId?, Option.bind_some, Desk.transcript, blockText?,
    h.ends.block?, Option.map_some, Document.slice?, h.ends.text, hslice, Option.join_some]

theorem outputAfter_of_backstage {d d' : Desk} (hback : d.Backstage d') (old : Text)
    (output : Snapshot) : d'.outputAfter old output = d.outputAfter old output := by
  rw [outputAfter, outputAfter, hback.viewport, hback.epoch]

-- What is concluded is the block with its last snapshot, if that is not dropped.
theorem Recording.finishBlock_after (h : d.Recording before prompt command old closed b)
    (exitCode : Int) {output : Snapshot} (hinside : output.RangesInside)
    (hfits : byteLength (before ++ prompt ++ command ++ output.text) ≤ maxOffset) :
    ∃ d' b', d.finishBlock exitCode (some output) = .done d' ∧
      d'.recorder.transcript.document.text =
        concludedText before (prompt ++ command ++ d.outputAfter old output) ∧
      d'.recorder.transcript.blocks =
        concludedBlocks closed b' (prompt ++ command ++ d.outputAfter old output) exitCode := by
  have hback := backstage_closeCurrentScope d
  obtain ⟨d₁, b', happly, -, hrecording, hcontinues⟩ :=
    (h.of_backstage hback).applyOutput_after hinside fun _ => hfits
  obtain ⟨t, hfinish, htext, hblocks, -⟩ :=
    h.finishBlock_of_written exitCode (some output) happly hrecording hcontinues.id_eq
  rw [outputAfter_of_backstage hback] at htext hblocks
  exact ⟨_, b', hfinish, htext, hblocks⟩

-- Both ways of finishing a command come to the same.
theorem Recording.finish (h : d.Recording before prompt command old closed b)
    (hbusy : d.recorder.state ≠ .idle) {finish : Call} {final : Snapshot}
    (hfinal : finish.lastSnapshot? d = some final) (hinside : finish.RangesInside)
    (hfits : byteLength (before ++ prompt ++ command ++ final.text) ≤ maxOffset) :
    ∃ d' b' exitCode, finish.run d = .done d' ∧
      d'.recorder.transcript.document.text =
        concludedText before (prompt ++ command ++ d.outputAfter old final) ∧
      d'.recorder.transcript.blocks =
        concludedBlocks closed b' (prompt ++ command ++ d.outputAfter old final) exitCode := by
  unfold Call.lastSnapshot? at hfinal
  split at hfinal
  · rename_i exitCode
    cases hfinal
    have hback := backstage_closeCurrentScope d
    obtain ⟨d', b', hfinish, htext, hblocks⟩ := (h.of_backstage hback).finishBlock_after exitCode
      (Terminal.snapshot_rangesInside d.stage.terminal) hfits
    rw [outputAfter_of_backstage hback] at htext hblocks
    refine ⟨d', b', exitCode, ?_, htext, hblocks⟩
    simp only [Call.run, Desk.finishCommand, hback.terminal, hfinish]
    rfl
  · rename_i exitCode _
    cases hfinal
    obtain ⟨d', b', hfinish, htext, hblocks⟩ := h.finishBlock_after exitCode hinside hfits
    refine ⟨d', b', exitCode, ?_, htext, hblocks⟩
    simp only [Call.run, Desk.handle, Desk.handleEvent, if_neg hbusy, hfinish]
    rfl
  · cases hfinal

end Finish

-- Both ways of starting a command open a block behind the text.
theorem Resting.start {d : Desk} (h : d.Resting) (hseen : d.recorder.viewport.disposed = false)
    {start : Call} (hstarts : start.Starts) (hfits : start.Fits d) :
    ∃ d' prompt command started epoch, start.run d = .done d' ∧
      d'.Busy d.recorder.transcript.opening prompt command d.recorder.transcript.blocks started
        epoch := by
  unfold Call.Starts at hstarts
  split at hstarts
  · rename_i command prompt
    have hcleared : Desk.Resting { d with stage :=
        { d.stage with terminal := d.stage.terminal.clearAll } } :=
      h.congr ⟨rfl, rfl, rfl, rfl⟩ rfl rfl
    have hroom := start_fits { d with stage :=
      { d.stage with terminal := d.stage.terminal.clearAll } } command prompt 0 hfits
    obtain ⟨d', hstart, hbusy⟩ := hcleared.startBlock_busy hseen command prompt
      d.stage.terminal.clearAll.epoch (by
        rw [byteLength_append] at hroom
        omega) fun _ => hroom
    refine ⟨d', _, _, _, _, ?_, hbusy⟩
    simp only [Call.run, Desk.startCommand, Desk.transcript, h.activeBlock?, hstart]
    rfl
  · rename_i command prompt epoch
    have hroom := start_fits d command prompt epoch hfits
    obtain ⟨d', hstart, hbusy⟩ := h.handle_started hseen command prompt epoch (by
      rw [byteLength_append] at hroom
      omega) fun _ => hroom
    exact ⟨d', _, _, _, _, hstart, hbusy⟩
  · exact hstarts.elim

-- A command whose block holds only blanks after the last snapshot leaves the blocks as they were, and
-- the text too unless an empty line was waiting to separate the next block: that line feed is gone.
-- The header is part of the block's text, so that it is blank or missing then.
theorem Reachable.blank_untraced_iff {d late : Desk} (hreachable : d.Reachable)
    (hclosed : d.recorder.transcript.activeBlock? = none)
    (hseen : d.recorder.viewport.disposed = false) (start finish : Call) (hstarts : start.Starts)
    (hstartFits : start.Fits d) (hinterlude : (start.run d).state.Interlude late)
    {final : Snapshot} (hfinal : finish.lastSnapshot? late = some final)
    (hinside : finish.RangesInside) (hfits : finish.Fits late) (text : Text)
    (htext : (late.applyOutput final).state.openText? = some text) (hblank : trim text = []) :
    ∃ after, finish.run late = .done after ∧
      (d.Untraced after ↔ d.recorder.transcript.separatorPending = false) ∧
      after.recorder.transcript.blocks = d.recorder.transcript.blocks ∧
      d.recorder.transcript.document.text = after.recorder.transcript.document.text ++
        if d.recorder.transcript.separatorPending then ['\n'] else [] := by
  rcases hreachable.shaped with hresting | ⟨before, prompt', command', output, closed, b, hopen⟩
  · obtain ⟨started, prompt, command, b, epoch, hstart, hstarted⟩ :=
      hresting.start hseen hstarts hstartFits
    rw [hstart] at hinterlude
    have hbusy := hinterlude.busy hstarted
    obtain ⟨old, b', hrecording, -⟩ := hbusy.recording
    obtain ⟨hspans, hroom⟩ := Call.lastSnapshot?_fits hfinal hinside hfits
    have hnew := hrecording.fits_of_room hroom
    obtain ⟨written, c, happly, -, hwritten, -⟩ :=
      hrecording.applyOutput_after hspans fun _ => hnew
    rw [happly, Outcome.state, hwritten.openText?, Option.some.injEq] at htext
    have hempty : (trim (dropBlankLine text)).isEmpty = true := by
      rw [trim_dropBlankLine_eq_nil hblank]
      rfl
    obtain ⟨after, c', exitCode, hfinish, hleft, hblocks⟩ :=
      hrecording.finish hbusy.notIdle hfinal hinside hnew
    rw [htext, concludedText, if_pos hempty] at hleft
    rw [htext, concludedBlocks, if_pos hempty] at hblocks
    have hsplit := hresting.rests.dropLast_opening
    rw [← hleft] at hsplit
    refine ⟨after, hfinish, ⟨fun h => ?_, fun hpending => ⟨?_, hblocks⟩⟩, hblocks, hsplit⟩
    · rw [h.text] at hsplit
      simpa using hsplit
    · rw [hsplit, hpending]
      simp
  · rw [hopen.activeBlock?] at hclosed
    cases hclosed

-- A command that showed nothing but its name.
def named : Desk :=
  ((Call.finishCommand 0).run ((Call.startCommand (some ['c']) none).run
    { stage := { terminal := .new ⟨4, 2⟩ 0 } }).state).state

-- A block that is blank in the end is tried behind it. The separator goes with the block, and the text
-- that is written in between does not matter.
theorem Reachable.untraced_after_blanks :
    let started := ((Call.startCommand none none).run named).state
    started.recorder.transcript.document.text = ['c', '\n'] ∧
      ∃ after, (Call.handle (.commandFinished 1 { epoch := 2, text := [' ', '\n', ' '] })).run
        (started.handle (.outputChanged { epoch := 2, text := ['a'] })).state = .done after ∧
        named.Untraced after ∧ after.recorder.transcript.document.text = ['c'] := by
  have hnone : ∀ text, Snapshot.RangesInside { epoch := 2, text } :=
    fun text range hrange => by cases hrange
  have hreachable : named.Reachable :=
    .call (.finishCommand 0) (.call (.startCommand (some ['c']) none) (.new _) trivial
      (by unfold Call.Fits; decide +kernel)) trivial (by unfold Call.Fits; decide +kernel)
  obtain ⟨after, hfinish, hiff, -⟩ := Reachable.blank_untraced_iff
    hreachable (by decide +kernel) (by decide +kernel) (.startCommand none none)
    (.handle (.commandFinished 1 { epoch := 2, text := [' ', '\n', ' '] })) trivial
    (by unfold Call.Fits; decide +kernel)
    (.event (.outputChanged { epoch := 2, text := ['a'] }) .nothing trivial (hnone ['a'])
      (by unfold Call.Fits; decide +kernel))
    rfl (hnone _) (by unfold Call.Fits; decide +kernel) [' ', '\n', ' '] (by decide +kernel)
    (by decide +kernel)
  have huntraced : named.Untraced after := hiff.mpr (by decide +kernel)
  exact ⟨by decide +kernel, after, hfinish, huntraced, huntraced.text.trans (by decide +kernel)⟩

-- A command that showed nothing but its name, and an empty line below it.
def spaced : Desk :=
  (Call.insertEmptyLine.run ((Call.finishCommand 0).run
    ((Call.startCommand (some ['c']) none).run
      { stage := { terminal := .new ⟨4, 2⟩ 0 } }).state).state).state

-- A blank block is tried behind it, and the empty line is lost.
theorem blank_takes_empty_line :
    let started := ((Call.startCommand none none).run spaced).state
    let after := ((Call.finishCommand 0).run started).state
    spaced.Reachable ∧ spaced.recorder.transcript.activeBlock? = none ∧
      spaced.recorder.viewport.disposed = false ∧ started.openText? = some [] ∧
      spaced.recorder.transcript.document.text = ['c', '\n'] ∧
      after.recorder.transcript.document.text = ['c'] ∧ ¬spaced.Untraced after := by
  refine ⟨?_, by decide +kernel, by decide +kernel, by decide +kernel, by decide +kernel,
    by decide +kernel, fun h => absurd h.text (by decide +kernel)⟩
  exact .call .insertEmptyLine (.call (.finishCommand 0)
    (.call (.startCommand (some ['c']) none) (.new _) trivial
      (by unfold Call.Fits; decide +kernel)) trivial (by unfold Call.Fits; decide +kernel)) trivial
    (by unfold Call.Fits; decide +kernel)

end Desk

end ShellTranscript
