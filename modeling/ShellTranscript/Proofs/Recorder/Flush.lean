import Mathlib.Tactic.Common
import ShellTranscript.Proofs.Recorder.Run

-- The last snapshot decides what a block becomes. What a recorder is told between the start and the
-- finish of a command moves only the end of the open block, its spans and its frame; the finish
-- writes the output anew.
namespace ShellTranscript

open Text Transcript

-- What a recorder is told while a command runs.
def Event.IsInterim : Event → Prop
  | .outputChanged _ => True
  | .alternateChanged _ => True
  | _ => False

namespace Desk

-- Snapshots and switches of the screen in any order. Everything around the record may change
-- meanwhile, above all what the terminal shows.
inductive Interlude (d : Desk) : Desk → Prop where
  | nothing : d.Interlude d
  | event {d' : Desk} (e : Event) : d.Interlude d' → e.IsInterim → e.RangesInside →
      (Call.handle e).Fits d' → d.Interlude (d'.handle e).state
  | around {d' d'' : Desk} : d.Interlude d' → d'.Around d'' → d.Interlude d''

-- Recording the block that was started so, for snapshots of one epoch.
structure Busy (d : Desk) (before prompt command : Text) (closed : List Block) (started : Block)
    (epoch : Nat) : Prop where
  recording : ∃ output b, d.Recording before prompt command output closed b ∧ started.Continues b
  notIdle : d.recorder.state ≠ .idle
  epoch : d.recorder.epoch = some epoch
  seen : d.recorder.viewport.disposed = false

section Interludes

variable {d d' : Desk} {before prompt command : Text} {closed : List Block} {started : Block}
  {epoch : Nat}

theorem Busy.of_around (h : d.Busy before prompt command closed started epoch)
    (haround : d.Around d') : d'.Busy before prompt command closed started epoch := by
  obtain ⟨output, b, hrecording, hcontinues⟩ := h.recording
  refine ⟨⟨output, b, hrecording.congr haround.record haround.caret, hcontinues⟩, ?_, ?_, ?_⟩
  · rw [haround.state]
    exact h.notIdle
  · rw [haround.epoch, h.epoch]
  · rw [haround.disposed, h.seen]

-- The text that is written takes the place of what is there.
theorem Busy.byteLength_le (h : d.Busy before prompt command closed started epoch) (text : Text) :
    byteLength (before ++ prompt ++ command ++ text) ≤
      d.recorder.transcript.document.length + byteLength text := by
  obtain ⟨old, b, hrecording, -⟩ := h.recording
  rw [hrecording.length_eq, byteLength_append, byteLength_append (before ++ prompt ++ command) old]
  omega

theorem Busy.applyOutput (h : d.Busy before prompt command closed started epoch)
    {output : Snapshot} (hinside : output.RangesInside) (hfits : output.epoch = epoch →
      byteLength (before ++ prompt ++ command ++ output.text) ≤ maxOffset) :
    ∃ d', d.applyOutput output = .done d' ∧
      d'.Busy before prompt command closed started epoch := by
  obtain ⟨old, b, hrecording, hcontinues⟩ := h.recording
  obtain ⟨d', new, b', happly, hcourse, hrecording', hcontinues'⟩ :=
    hrecording.applyOutput hinside fun hepoch =>
      hfits (Option.some.inj (hepoch.symm.trans h.epoch))
  refine ⟨d', happly, ⟨new, b', hrecording', hcontinues.trans hcontinues'⟩, ?_, ?_, ?_⟩
  · rw [hcourse.state]
    exact h.notIdle
  · rw [hcourse.epoch, h.epoch]
  · rw [hcourse.disposed, h.seen]

theorem Busy.changeAlternate (h : d.Busy before prompt command closed started epoch)
    (enabled : Bool) (hfits : d.recorder.transcript.document.length +
      byteLength d.stage.terminal.snapshot.text ≤ maxOffset) :
    ∃ d', d.changeAlternate enabled = .done d' ∧
      d'.Busy before prompt command closed started epoch := by
  have hset : ∀ {d₁ : Desk} {state : RecorderState}, d.Backstage d₁ → state ≠ .idle →
      (d₁.modifyRecorder fun r => { r with state }).Busy before prompt command closed started
        epoch := by
    intro d₁ state hback hstate
    obtain ⟨output, b, hrecording, hcontinues⟩ := h.recording
    refine ⟨⟨output, b, (hrecording.of_backstage hback).congr ⟨rfl, rfl, rfl, rfl⟩ rfl,
      hcontinues⟩, hstate, hback.epoch.trans h.epoch, ?_⟩
    exact (congrArg Viewport.disposed hback.viewport).trans h.seen
  unfold Desk.changeAlternate
  split
  · exact ⟨_, rfl, hset (backstage_closeCurrentScope d) (by simp)⟩
  · obtain ⟨output, b, hrecording, -⟩ := h.recording
    rw [hrecording.activeId?]
    have hback := backstage_openScope d b.id
    have hbusy : ((d.openScope b.id).modifyRecorder fun r => { r with state := .running }).Busy
        before prompt command closed started epoch := hset hback (by simp)
    refine hbusy.applyOutput (Terminal.snapshot_rangesInside _) fun _ => ?_
    refine Nat.le_trans (hbusy.byteLength_le _) ?_
    have hterminal := hback.terminal
    have hlength := congrArg (fun t => t.document.length) hback.transcript
    simp only [modifyRecorder] at hterminal hlength ⊢
    rw [hterminal, hlength]
    exact hfits
  · exact ⟨d, rfl, h⟩

theorem Busy.handle_output (h : d.Busy before prompt command closed started epoch)
    {output : Snapshot} (hinside : output.RangesInside) (hfits : output.epoch = epoch →
      byteLength (before ++ prompt ++ command ++ output.text) ≤ maxOffset) :
    (d.handle (.outputChanged output)).state.Busy before prompt command closed started epoch := by
  by_cases hrunning : d.recorder.state = .running
  · obtain ⟨d', happly, hbusy⟩ := h.applyOutput hinside hfits
    rwa [Desk.handle, Desk.handleEvent, if_pos hrunning, happly]
  · rwa [Desk.handle, Desk.handleEvent, if_neg hrunning]

theorem Busy.interim (h : d.Busy before prompt command closed started epoch) {e : Event}
    (hinterim : e.IsInterim) (hinside : e.RangesInside) (hfits : (Call.handle e).Fits d) :
    (d.handle e).state.Busy before prompt command closed started epoch := by
  simp only [Call.Fits, Call.bytes] at hfits
  cases e with
  | outputChanged output =>
    simp only [Event.bytes] at hfits
    exact h.handle_output hinside fun _ => Nat.le_trans (h.byteLength_le _) (by omega)
  | alternateChanged enabled =>
    obtain ⟨d', hchange, hbusy⟩ := h.changeAlternate enabled (by omega)
    rwa [Desk.handle, Desk.handleEvent, hchange]
  | _ => exact hinterim.elim

-- Nothing in between can end the recording of the block.
theorem Interlude.busy (h : d.Interlude d')
    (hbusy : d.Busy before prompt command closed started epoch) :
    d'.Busy before prompt command closed started epoch := by
  induction h with
  | nothing => exact hbusy
  | event e _ hinterim hinside hfits ih => exact ih.interim hinterim hinside hfits
  | around _ haround ih => exact ih.of_around haround

-- A finish concludes the block that was started, whatever was written into it before.
theorem Busy.handle_finished (h : d.Busy before prompt command closed started epoch)
    {final : Snapshot} (hinside : final.RangesInside) (hmain : final.alternate = false)
    (hepoch : final.epoch = epoch) (exitCode : Int)
    (hfits : byteLength (before ++ prompt ++ command ++ final.text) ≤ maxOffset) :
    ∃ d' b, d.handle (.commandFinished exitCode final) = .done d' ∧ d'.Resting ∧
      d'.recorder.transcript.document.text =
        concludedText before (prompt ++ command ++ final.text) ∧
      d'.recorder.transcript.blocks = concludedBlocks closed
        (writtenBlock b closed.isEmpty final) (prompt ++ command ++ final.text) exitCode ∧
      d'.recorder.transcript.separatorPending = false ∧
      d'.recorder.viewport.disposed = false ∧ started.Continues b ∧
      (writtenBlock b closed.isEmpty final).Covers before prompt command final.text := by
  obtain ⟨output, b, hrecording, hcontinues⟩ := h.recording
  have hcovers := hrecording.covers
  obtain ⟨d', hfinish, hresting, htext, hblocks, hpending, hdisposed⟩ :=
    hrecording.finishBlock_current hinside hfits h.seen hmain (hepoch ▸ h.epoch) exitCode
  have hevent : d.handleEvent (.commandFinished exitCode final) = .done d' := by
    simp only [Desk.handleEvent, if_neg h.notIdle, hfinish]
  have hhandle : d.handle (.commandFinished exitCode final) = .done d' := by
    rw [Desk.handle, hevent]
    rfl
  refine ⟨d', b, hhandle, hresting, htext, hblocks, hpending, hdisposed, hcontinues, hcovers.start,
    hcovers.commandStart, hcovers.outputStart, ?_⟩
  rw [byteLength_append, ← hcovers.outputStart]
  rfl

theorem Busy.finish (h : d.Busy before prompt command closed started epoch)
    (hfresh : ∀ c ∈ closed, c.id ≠ started.id)
    {final : Snapshot} (hinside : final.RangesInside) (hmain : final.alternate = false)
    (hepoch : final.epoch = epoch) (exitCode : Int)
    (hfits : (Call.handle (.commandFinished exitCode final)).Fits d) :
    ∃ d', d.handle (.commandFinished exitCode final) = .done d' ∧
      d'.recorder.transcript.document.text =
        concludedText before (prompt ++ command ++ final.text) ∧
      d'.recorder.transcript.blocks.map unframed = (concludedBlocks closed
        (writtenBlock started closed.isEmpty final) (prompt ++ command ++ final.text)
        exitCode).map unframed ∧
      d'.recorder.transcript.blockText? started.id =
        if (trim (dropBlankLine (prompt ++ command ++ final.text))).isEmpty then none
        else some (some (dropBlankLine (prompt ++ command ++ final.text))) := by
  have hnew : byteLength (before ++ prompt ++ command ++ final.text) ≤ maxOffset := by
    have hlength := h.byteLength_le final.text
    simp only [Call.Fits, Call.bytes, Event.bytes] at hfits
    omega
  obtain ⟨d', b, hhandle, -, htext, hblocks, -, -, hcontinues, hcovers⟩ :=
    h.handle_finished hinside hmain hepoch exitCode hnew
  have hid : (writtenBlock b closed.isEmpty final).id = started.id := hcontinues.id_eq
  have hkept := blockText?_concluded hcovers (hid ▸ hfresh) htext hblocks
  rw [hid] at hkept
  refine ⟨d', hhandle, htext, ?_, hkept⟩
  rw [hblocks]
  exact unframed_concludedBlocks (hcontinues.unframed_writtenBlock closed.isEmpty final) _ _ _

theorem Resting.startBlock_busy (h : d.Resting) (hseen : d.recorder.viewport.disposed = false)
    (command prompt : Option Text) (epoch : Nat)
    (hheader : byteLength (d.recorder.transcript.opening ++
      header (notEmpty prompt) (notEmpty command)) ≤ maxOffset)
    (hfits : d.stage.terminal.epoch = epoch → byteLength (d.recorder.transcript.opening ++
      header (notEmpty prompt) (notEmpty command) ++ d.stage.terminal.snapshot.text) ≤ maxOffset) :
    ∃ d', d.startBlock command prompt epoch = .done d' ∧
      d'.Busy d.recorder.transcript.opening (headerParts (notEmpty prompt) (notEmpty command)).1
        (headerParts (notEmpty prompt) (notEmpty command)).2 d.recorder.transcript.blocks
        (d.recorder.transcript.startedBlock command prompt) epoch := by
  obtain ⟨d', output, b, hstart, hrecording, hcontinues, hstate, hepoch, hdisposed⟩ :=
    h.startBlock command prompt epoch hheader hfits
  refine ⟨d', hstart, ⟨output, b, hrecording, hcontinues⟩, ?_, hepoch, hdisposed.trans hseen⟩
  rw [hstate]
  simp

theorem Resting.handle_started (h : d.Resting) (hseen : d.recorder.viewport.disposed = false)
    (command prompt : Option Text) (epoch : Nat)
    (hheader : byteLength (d.recorder.transcript.opening ++
      header (notEmpty prompt) (notEmpty command)) ≤ maxOffset)
    (hfits : d.stage.terminal.epoch = epoch → byteLength (d.recorder.transcript.opening ++
      header (notEmpty prompt) (notEmpty command) ++ d.stage.terminal.snapshot.text) ≤ maxOffset) :
    ∃ d', d.handle (.commandStarted command prompt epoch) = .done d' ∧
      d'.Busy d.recorder.transcript.opening (headerParts (notEmpty prompt) (notEmpty command)).1
        (headerParts (notEmpty prompt) (notEmpty command)).2 d.recorder.transcript.blocks
        (d.recorder.transcript.startedBlock command prompt) epoch := by
  obtain ⟨d', hstart, hbusy⟩ := h.startBlock_busy hseen command prompt epoch hheader hfits
  have hevent : d.handleEvent (.commandStarted command prompt epoch) = .done d' := by
    simp only [Desk.handleEvent, if_pos h.idle, Outcome.andThen, hstart]
  exact ⟨d', by rw [Desk.handle, hevent]; rfl, hbusy⟩

-- There is room for a command whose texts are in memory together with the document.
theorem start_fits (d : Desk) (command prompt : Option Text) (epoch : Nat)
    (hfits : (Call.handle (.commandStarted command prompt epoch)).Fits d) :
    byteLength (d.recorder.transcript.opening ++ header (notEmpty prompt) (notEmpty command) ++
      d.stage.terminal.snapshot.text) ≤ maxOffset := by
  have hopening := byteLength_opening_le d.recorder.transcript
  have hheader := byteLength_header_le prompt command
  simp only [Call.Fits, Call.bytes, Event.bytes] at hfits
  rw [byteLength_append, byteLength_append]
  omega

end Interludes

end Desk

end ShellTranscript
