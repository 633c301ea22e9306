import Mathlib.Tactic.Common
import ShellTranscript.Proofs.Recorder.Run

-- What is done to a record, act by act. A block is started, snapshots are written into it, and it is
-- concluded; an empty line may break it off, and everything may be cleared. Every call of a recorder
-- and every event is a row of such acts with nothing between them that the record would show.
namespace ShellTranscript

open Text Transcript

namespace Desk

inductive Act where
  | start (command prompt : Option Text) (epoch : Nat)
  | write (output : Snapshot)
  | conclude (exitCode : Int)
  | breakLine
  | clear

-- What an act leaves of the text and of the blocks. Snapshots are written into a block of their epoch.
inductive Does (d : Desk) : Act → Desk → Prop where
  | start {d' : Desk} (command prompt : Option Text) (epoch : Nat) (resting : d.Resting)
      (recording : d'.Recording d.recorder.transcript.opening
        (headerParts (notEmpty prompt) (notEmpty command)).1
        (headerParts (notEmpty prompt) (notEmpty command)).2 [] d.recorder.transcript.blocks
        (d.recorder.transcript.startedBlock command prompt))
      (hepoch : d'.recorder.epoch = some epoch)
      (hnext : d'.recorder.transcript.nextId = d.recorder.transcript.nextId + 1) :
      Does d (.start command prompt epoch) d'
  | write {d' : Desk} {before prompt command old : Text} {closed : List Block} {b : Block}
      {spans : List Span} (output : Snapshot)
      (recording : d.Recording before prompt command old closed b)
      (hspans : output.ranges.mapM (outputSpan b.outputStart) = .ok spans)
      (hcurrent : d.recorder.epoch = some output.epoch)
      (recording' : d'.Recording before prompt command output.text closed
        (writtenWith b closed.isEmpty output.text spans))
      (hepoch : d'.recorder.epoch = d.recorder.epoch)
      (hnext : d'.recorder.transcript.nextId = d.recorder.transcript.nextId) :
      Does d (.write output) d'
  | conclude {d' : Desk} {before prompt command output : Text} {closed : List Block} {b : Block}
      (exitCode : Int) (recording : d.Recording before prompt command output closed b)
      (resting : d'.Resting)
      (htext : d'.recorder.transcript.document.text =
        concludedText before (prompt ++ command ++ output))
      (hblocks : d'.recorder.transcript.blocks =
        concludedBlocks closed b (prompt ++ command ++ output) exitCode)
      (hnext : d'.recorder.transcript.nextId = d.recorder.transcript.nextId) :
      Does d (.conclude exitCode) d'
  | breakLine {d' : Desk} (shaped : d.Shaped) (resting : d'.Resting)
      (htext : d'.recorder.transcript.document.text =
        d.recorder.transcript.document.text ++ ['\n'])
      (hblocks : d'.recorder.transcript.blocks = d.recorder.transcript.closeLast.blocks)
      (hnext : d'.recorder.transcript.nextId = d.recorder.transcript.nextId) :
      Does d .breakLine d'
  | clear {d' : Desk} (resting : d'.Resting) (hblocks : d'.recorder.transcript.blocks = [])
      (hnext : d'.recorder.transcript.nextId = d.recorder.transcript.nextId) :
      Does d .clear d'

-- The record stays, a recorder at rest stays at rest, and snapshots of no other epoch are waited for.
structure Still (d d' : Desk) : Prop where
  record : d.recorder.transcript.SameRecord d'.recorder.transcript
  epoch : ∀ epoch, d'.recorder.epoch = some epoch → d.recorder.epoch = some epoch
  caret : d'.recorder.viewport.caret = d.recorder.viewport.caret
  idle : d.recorder.state = .idle → d'.recorder.state = .idle

-- Where acts of some kind lead.
inductive Through (allowed : Act → Prop) (d : Desk) : Desk → Prop where
  | here : Through allowed d d
  | still {d' d'' : Desk} : Through allowed d d' → d'.Still d'' → Through allowed d d''
  | act {d' d'' : Desk} {a : Act} : Through allowed d d' → allowed a → d'.Does a d'' →
      Through allowed d d''

section Acts

variable {d d' d'' : Desk} {allowed allowed' : Act → Prop} {a : Act}

theorem Still.refl (d : Desk) : d.Still d := ⟨⟨rfl, rfl, rfl, rfl⟩, fun _ => id, rfl, id⟩

theorem Around.still (h : d.Around d') : d.Still d' :=
  ⟨h.record, fun _ hepoch => h.epoch ▸ hepoch, h.caret, fun hidle => h.state.trans hidle⟩

theorem Backstage.still (h : d.Backstage d') : d.Still d' := h.around.still

theorem Shaped.of_still (h : d.Shaped) (hstill : d.Still d') : d'.Shaped := by
  rcases h with h | ⟨before, prompt, command, output, closed, b, h⟩
  · have hstate : d'.recorder.state = d.recorder.state := (hstill.idle h.idle).trans h.idle.symm
    exact (h.congr hstill.record hstate hstill.caret).shaped
  · exact (h.congr hstill.record hstill.caret).shaped

theorem Does.shaped (h : d.Does a d') : d'.Shaped := by
  cases h with
  | start command prompt epoch _ recording => exact recording.shaped
  | write output _ _ _ recording' => exact recording'.shaped
  | conclude exitCode _ resting => exact resting.shaped
  | breakLine _ resting => exact resting.shaped
  | clear resting => exact resting.shaped

namespace Through

theorem trans (h : d.Through allowed d') (h' : d'.Through allowed d'') : d.Through allowed d'' := by
  induction h' with
  | here => exact h
  | still _ hstill ih => exact ih.still hstill
  | act _ ha hdoes ih => exact ih.act ha hdoes

theorem mono (h : d.Through allowed d') (hallowed : ∀ a, allowed a → allowed' a) :
    d.Through allowed' d' := by
  induction h with
  | here => exact .here
  | still _ hstill ih => exact ih.still hstill
  | act _ ha hdoes ih => exact ih.act (hallowed _ ha) hdoes

theorem shaped (h : d.Through allowed d') (hshaped : d.Shaped) : d'.Shaped := by
  induction h with
  | here => exact hshaped
  | still _ hstill ih => exact ih.of_still hstill
  | act _ _ hdoes _ => exact hdoes.shaped

end Through

theorem Still.through (h : d.Still d') : d.Through allowed d' := .still .here h

theorem Does.through (h : d.Does a d') (ha : allowed a) : d.Through allowed d' := .act .here ha h

end Acts

section Operations

variable {d : Desk} {allowed : Act → Prop} {before prompt command old : Text} {closed : List Block}
  {b : Block} {output : Snapshot}

theorem Recording.through_applyOutput (h : d.Recording before prompt command old closed b)
    (hwrite : allowed (.write output))
    (hfits : byteLength (before ++ prompt ++ command ++ output.text) ≤ maxOffset) :
    d.Through allowed (d.applyOutput output).state := by
  rcases h.applyOutput_cases hfits with
    ⟨d', spans, happly, hcourse, hspans, hcurrent, hrecording⟩ | happly | happly
  · rw [happly]
    exact (Does.write output h hspans hcurrent hrecording hcourse.epoch hcourse.nextId).through hwrite
  · rw [happly]
    exact .here
  · rw [happly]
    exact .here

theorem Shaped.through_applyOutput (h : d.Shaped) (hwrite : allowed (.write output))
    (hfits : d.recorder.transcript.document.length + byteLength output.text ≤ maxOffset) :
    d.Through allowed (d.applyOutput output).state := by
  rcases h with h | ⟨before, prompt, command, old, closed, b, h⟩
  · rw [h.applyOutput]
    exact .here
  · exact h.through_applyOutput hwrite (h.fits_of_room hfits)

-- A start is one act, and the snapshot that the terminal shows may follow it.
theorem Resting.startBlock_does (h : d.Resting) (command prompt : Option Text) (epoch : Nat)
    (hfits : d.recorder.transcript.document.length + (byteLength (command.getD []) +
      byteLength (prompt.getD [])) + byteLength d.stage.terminal.snapshot.text + 2 ≤ maxOffset) :
    ∃ d₁, d.Does (.start command prompt epoch) d₁ ∧
      d₁.Through (· = .write d.stage.terminal.snapshot) (d.startBlock command prompt epoch).state := by
  have hopening := byteLength_opening_le d.recorder.transcript
  have hheader := byteLength_header_le prompt command
  obtain ⟨t, hstart, hnext, hrecording⟩ := h.startBlock_eq command prompt epoch (by
    rw [byteLength_append]
    omega)
  have hback := backstage_openScope (d.recordingOn t epoch) d.recorder.transcript.nextId
  refine ⟨d.recordingOn t epoch, .start command prompt epoch h hrecording rfl hnext, ?_⟩
  rw [hstart]
  refine hback.still.through.trans ((hrecording.of_backstage hback).through_applyOutput rfl ?_)
  rw [List.append_assoc d.recorder.transcript.opening, headerParts_append, byteLength_append,
    byteLength_append]
  omega

theorem Shaped.through_startBlock (h : d.Shaped) (command prompt : Option Text) (epoch : Nat)
    (hstart : allowed (.start command prompt epoch))
    (hwrite : allowed (.write d.stage.terminal.snapshot))
    (hfits : d.recorder.transcript.document.length + (byteLength (command.getD []) +
      byteLength (prompt.getD [])) + byteLength d.stage.terminal.snapshot.text + 2 ≤ maxOffset) :
    d.Through allowed (d.startBlock command prompt epoch).state := by
  rcases h with h | ⟨before, prompt', command', output, closed, b, h⟩
  · obtain ⟨d₁, hdoes, hafter⟩ := h.startBlock_does command prompt epoch hfits
    exact (hdoes.through hstart).trans (hafter.mono fun a ha => ha ▸ hwrite)
  · rw [h.startBlock_refused]
    exact .here

theorem Recording.through_of_written (h : d.Recording before prompt command old closed b)
    {d₁ : Desk} {new : Text} {b' : Block} (exitCode : Int) (output : Option Snapshot)
    (hconclude : allowed (.conclude exitCode))
    (hwritten : (match output with
      | some output => d.closeCurrentScope.applyOutput output
      | none => .done d.closeCurrentScope) = .done d₁)
    (hrecording : d₁.Recording before prompt command new closed b') (hid : b'.id = b.id) :
    d₁.Through allowed (d.finishBlock exitCode output).state := by
  obtain ⟨t, hdone, htext, hblocks, hrests, -, hnext⟩ :=
    h.finishBlock_of_written exitCode output hwritten hrecording hid
  rw [hdone]
  exact (Does.conclude exitCode hrecording (resting_restingOn d₁ hrests) htext hblocks hnext).through
    hconclude

-- Without a last snapshot the block is concluded as it is.
theorem Recording.through_finishBlock_none (h : d.Recording before prompt command old closed b)
    (exitCode : Int) (hconclude : allowed (.conclude exitCode)) :
    d.Through allowed (d.finishBlock exitCode none).state := by
  have hback := backstage_closeCurrentScope d
  exact hback.still.through.trans
    (h.through_of_written exitCode none hconclude rfl (h.of_backstage hback) rfl)

-- A snapshot that is refused leaves the block open.
theorem Recording.through_finishBlock (h : d.Recording before prompt command old closed b)
    (exitCode : Int) (hwrite : allowed (.write output)) (hconclude : allowed (.conclude exitCode))
    (hfits : byteLength (before ++ prompt ++ command ++ output.text) ≤ maxOffset) :
    d.Through allowed (d.finishBlock exitCode (some output)).state := by
  have hback := backstage_closeCurrentScope d
  have hclosed := h.of_backstage hback
  have happly := hback.still.through.trans (hclosed.through_applyOutput hwrite hfits)
  rcases hclosed.applyOutput_cases hfits with
    ⟨d₁, spans, hdone, -, -, -, hrecording⟩ | hdone | hrefused
  · rw [hdone] at happly
    exact happly.trans
      (h.through_of_written exitCode (some output) hconclude hdone hrecording rfl)
  · rw [hdone] at happly
    exact happly.trans (h.through_of_written exitCode (some output) hconclude hdone hclosed rfl)
  · have hkept : d.finishBlock exitCode (some output) = .refused .badOffset d.closeCurrentScope := by
      simp only [Desk.finishBlock, hclosed.activeId?, hrefused, Outcome.andThen]
    rw [hkept]
    exact hback.still.through

theorem Resting.through_finishBlock (h : d.Resting) (exitCode : Int) (output : Option Snapshot) :
    d.Through allowed (d.finishBlock exitCode output).state := by
  have hback := backstage_closeCurrentScope d
  have hactive := (h.of_backstage hback).activeId?
  simp only [Desk.finishBlock, hactive, Outcome.andThen]
  refine hback.still.through.still ⟨⟨rfl, rfl, rfl, rfl⟩, fun epoch hnone => ?_, rfl, fun _ => rfl⟩
  cases hnone

theorem Shaped.through_finishBlock (h : d.Shaped) (exitCode : Int) (hwrite : allowed (.write output))
    (hconclude : allowed (.conclude exitCode))
    (hfits : d.recorder.transcript.document.length + byteLength output.text ≤ maxOffset) :
    d.Through allowed (d.finishBlock exitCode (some output)).state := by
  rcases h with h | ⟨before, prompt, command, old, closed, b, h⟩
  · exact h.through_finishBlock exitCode (some output)
  · exact h.through_finishBlock exitCode hwrite hconclude (h.fits_of_room hfits)

theorem Shaped.through_insertEmptyLine (h : d.Shaped) (hbreak : allowed .breakLine) :
    d.Through allowed d.insertEmptyLine := by
  have hback := backstage_closeCurrentScope d
  have htranscript : d.insertEmptyLine.recorder.transcript =
      d.recorder.transcript.closeLast.appendLineBreak := by
    rw [← hback.transcript]
    rfl
  refine Does.through (.breakLine h h.insertEmptyLine ?_ ?_ ?_) hbreak <;> rw [htranscript] <;> rfl

theorem through_clearBlocks (d : Desk) (hclear : allowed .clear) : d.Through allowed d.clearBlocks := by
  have hback := backstage_closeCurrentScope d
  refine Does.through (.clear (resting_clearBlocks d) rfl ?_) hclear
  rw [← hback.transcript]
  rfl

theorem Shaped.through_changeAlternate (h : d.Shaped) (enabled : Bool)
    (hwrite : enabled = false → d.recorder.state = .suspended →
      allowed (.write d.stage.terminal.snapshot))
    (hfits : d.recorder.transcript.document.length +
      byteLength d.stage.terminal.snapshot.text ≤ maxOffset) :
    d.Through allowed (d.changeAlternate enabled).state := by
  have hback := backstage_closeCurrentScope d
  -- Only a recorder that is busy changes its state.
  have hturned : ∀ {d' : Desk} (state : RecorderState), d.Backstage d' → d.recorder.state ≠ .idle →
      d.Still (d'.modifyRecorder fun r => { r with state }) := fun {d'} state hback hbusy =>
    ⟨hback.sameRecord, hback.still.epoch, hback.still.caret, fun hidle => absurd hidle hbusy⟩
  unfold Desk.changeAlternate
  split
  · rename_i hstate
    exact (hturned .suspended hback (by simp [hstate])).through
  · rename_i hstate
    have hbusy : d.recorder.state ≠ .idle := by simp [hstate]
    split
    · exact (hturned .idle (.refl d) hbusy).through
    · rename_i id hactive
      have hopen := backstage_openScope d id
      have hrunning := hturned .running hopen hbusy
      refine hrunning.through.trans
        ((h.of_still hrunning).through_applyOutput (hopen.terminal.symm ▸ hwrite rfl hstate) ?_)
      rw [Document.length, hrunning.record.text]
      exact hopen.terminal.symm ▸ hfits
  · exact .here

theorem still_dispose (d : Desk) : d.Still d.dispose := by
  have hback := backstage_closeCurrentScope d
  exact ⟨hback.sameRecord, hback.still.epoch, hback.still.caret, fun _ => rfl⟩

end Operations

end Desk

-- The snapshot that an event brings along.
def Event.snapshot? : Event → Option Snapshot
  | .outputChanged output => some output
  | .commandFinished _ output => some output
  | _ => none

namespace Desk

-- The events at which a recorder looks at the terminal itself.
def glances (d : Desk) : Event → Bool
  | .commandStarted _ _ _ => true
  | .alternateChanged enabled => !enabled && d.recorder.state == .suspended
  | _ => false

-- What an event can lead to. A snapshot that is written was brought along, or is one of the terminal.
def Act.Follows (d : Desk) (a : Act) : Event → Prop
  | .outputChanged output => a = .write output
  | .commandStarted command prompt epoch =>
    a = .conclude 0 ∨ a = .start command prompt epoch ∨ a = .write d.stage.terminal.snapshot
  | .commandFinished exitCode output => a = .write output ∨ a = .conclude exitCode
  | .cleared => a = .clear
  | .alternateChanged enabled =>
    d.glances (.alternateChanged enabled) = true ∧ a = .write d.stage.terminal.snapshot
  | .terminated => False
  | .disposed => False

def Act.Serves (d : Desk) (a : Act) : Call → Prop
  | .startCommand command prompt =>
    a = .start command prompt d.stage.terminal.clearAll.epoch ∨
      a = .write d.stage.terminal.clearAll.snapshot
  | .finishCommand exitCode => a = .write d.stage.terminal.snapshot ∨ a = .conclude exitCode
  | .insertEmptyLine => a = .breakLine
  | .changeAlternate enabled => a.Follows d (.alternateChanged enabled)
  | .clearBlocks => a = .clear
  | .dispose => False
  | .handle e => a.Follows d e

section Events

variable {d : Desk} {e : Event} {c : Call} {output : Snapshot}

theorem Act.Follows.written (h : (Act.write output).Follows d e) :
    e.snapshot? = some output ∨ d.glances e = true ∧ output = d.stage.terminal.snapshot := by
  cases e <;> simp_all [Act.Follows, Event.snapshot?, glances]

theorem Act.Serves.written (h : (Act.write output).Serves d c) :
    (∃ t : Terminal, output = t.snapshot) ∨ ∃ e, c = .handle e ∧ e.snapshot? = some output := by
  cases c with
  | handle e =>
    rcases Act.Follows.written h with hbrings | ⟨-, rfl⟩
    · exact .inr ⟨e, rfl, hbrings⟩
    · exact .inl ⟨_, rfl⟩
  | startCommand command prompt => exact .inl ⟨d.stage.terminal.clearAll, by simpa [Act.Serves] using h⟩
  | finishCommand exitCode => exact .inl ⟨d.stage.terminal, by simpa [Act.Serves] using h⟩
  | changeAlternate enabled => exact .inl ⟨d.stage.terminal, by simpa [Act.Serves, Act.Follows] using h.2⟩
  | _ => simp [Act.Serves] at h

-- A recorder that is not idle concludes its block before the next one starts.
theorem Shaped.started_does (h : d.Shaped) (hready : d.recorder.state = .idle → d.Resting)
    {command prompt : Option Text} {epoch : Nat}
    (hfits : (Call.handle (.commandStarted command prompt epoch)).Fits d) :
    ∃ d₁ d₂, d.Through (· = .conclude 0) d₁ ∧ d₁.Does (.start command prompt epoch) d₂ ∧
      d₂.Through (· = .write d.stage.terminal.snapshot)
        (d.handleEvent (.commandStarted command prompt epoch)).state := by
  simp only [Call.Fits, Call.bytes, Event.bytes] at hfits
  simp only [Desk.handleEvent]
  split
  · rename_i hidle
    obtain ⟨d₂, hdoes, hafter⟩ := (hready hidle).startBlock_does command prompt epoch (by omega)
    exact ⟨d, d₂, .here, hdoes, hafter⟩
  · rename_i hbusy
    rcases h with h | ⟨before, prompt', command', output, closed, b, h⟩
    · exact absurd h.idle hbusy
    · have hconcluded : d.Through (· = .conclude 0) (d.finishBlock 0 none).state :=
        h.through_finishBlock_none 0 rfl
      obtain ⟨d₁, hfinish, hresting, hterminal, hlength⟩ := h.finishBlock_none 0
      rw [hfinish] at hconcluded ⊢
      obtain ⟨d₂, hdoes, hafter⟩ := hresting.startBlock_does command prompt epoch (by
        rw [hterminal]
        omega)
      rw [hterminal] at hafter
      exact ⟨d₁, d₂, hconcluded, hdoes, hafter⟩

theorem Shaped.through_handleEvent (h : d.Shaped) (hfits : (Call.handle e).Fits d) :
    d.Through (·.Follows d e) (d.handleEvent e).state := by
  cases e with
  | outputChanged output =>
    simp only [Call.Fits, Call.bytes, Event.bytes] at hfits
    simp only [Desk.handleEvent]
    split
    · exact h.through_applyOutput rfl (by omega)
    · exact .here
  | commandStarted command prompt epoch =>
    by_cases hready : d.recorder.state = .idle → d.Resting
    · obtain ⟨d₁, d₂, hbefore, hdoes, hafter⟩ := h.started_does hready hfits
      exact ((hbefore.mono fun a ha => .inl ha).act (.inr (.inl rfl)) hdoes).trans
        (hafter.mono fun a ha => .inr (.inr ha))
    · -- A block that is open while the recorder is idle stays open.
      obtain ⟨hidle, hopen⟩ := Classical.not_imp.mp hready
      rcases h with h | ⟨before, prompt', command', output, closed, b, h⟩
      · exact absurd h hopen
      · simp only [Desk.handleEvent, if_pos hidle, Outcome.andThen, h.startBlock_refused]
        exact .here
  | commandFinished exitCode output =>
    simp only [Call.Fits, Call.bytes, Event.bytes] at hfits
    simp only [Desk.handleEvent]
    split
    · exact .here
    · exact h.through_finishBlock exitCode (.inl rfl) (.inr rfl) (by omega)
  | cleared => exact through_clearBlocks d rfl
  | alternateChanged enabled =>
    simp only [Call.Fits, Call.bytes, Event.bytes] at hfits
    refine h.through_changeAlternate enabled (fun henabled hstate => ⟨?_, rfl⟩) (by omega)
    simp [glances, henabled, hstate]
  | terminated => exact d.around_terminate.still.through
  | disposed => exact d.still_dispose.through

theorem Shaped.through_call (h : d.Shaped) (c : Call) (hfits : c.Fits d) :
    d.Through (·.Serves d c) (c.run d).state := by
  cases c with
  | startCommand command prompt =>
    simp only [Call.run, Desk.startCommand]
    split
    · exact .here
    · have hcleared := d.around_stage { d.stage with terminal := d.stage.terminal.clearAll }
      refine Outcome.state_restoring .here (hcleared.still.through.trans
        ((h.of_around hcleared).through_startBlock command prompt _ (.inl rfl) (.inr rfl) ?_))
      simp only [Call.Fits, Call.bytes] at hfits
      simp only
      omega
  | finishCommand exitCode =>
    have hback := backstage_closeCurrentScope d
    refine Outcome.state_restoring .here (hback.still.through.trans
      ((h.of_backstage hback).through_finishBlock exitCode ?_ (.inr rfl) ?_))
    · exact hback.terminal.symm ▸ .inl rfl
    · simp only [Call.Fits, Call.bytes] at hfits
      rw [hback.terminal, hback.transcript]
      omega
  | insertEmptyLine => exact h.through_insertEmptyLine rfl
  | changeAlternate enabled =>
    have hroom : (Call.handle (.alternateChanged enabled)).Fits d := by
      simpa only [Call.Fits, Call.bytes, Event.bytes, Nat.zero_add] using hfits
    exact h.through_handleEvent hroom
  | clearBlocks => exact through_clearBlocks d rfl
  | dispose => exact d.still_dispose.through
  | handle e => exact Outcome.state_restoring .here (h.through_handleEvent hfits)

end Events

end Desk

end ShellTranscript
