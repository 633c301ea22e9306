import Mathlib.Tactic.Common
import ShellTranscript.Proofs.Recorder.Recording

-- Runs of a recorder: calls and events in any order, while the terminal and everything else around
-- the record may change at any time. A run never leaves the two shapes, so that the blocks stay laid
-- out in the document and no call meets an offset that is not there.
namespace ShellTranscript

open Text Transcript

def Event.RangesInside : Event → Prop
  | .outputChanged output => output.RangesInside
  | .commandFinished _ output => output.RangesInside
  | _ => True

-- The bytes of the texts that an event brings.
def Event.bytes : Event → Nat
  | .outputChanged output => byteLength output.text
  | .commandStarted command prompt _ => byteLength (command.getD []) + byteLength (prompt.getD [])
  | .commandFinished _ output => byteLength output.text
  | _ => 0

inductive Call where
  | startCommand (command prompt : Option Text)
  | finishCommand (exitCode : Int)
  | insertEmptyLine
  | changeAlternate (enabled : Bool)
  | clearBlocks
  | dispose
  | handle (e : Event)

namespace Call

def run (d : Desk) : Call → Outcome Desk
  | startCommand command prompt => d.startCommand command prompt
  | finishCommand exitCode => d.finishCommand exitCode
  | insertEmptyLine => .done d.insertEmptyLine
  | changeAlternate enabled => d.changeAlternate enabled
  | clearBlocks => .done d.clearBlocks
  | dispose => .done d.dispose
  | handle e => d.handle e

def RangesInside : Call → Prop
  | handle e => e.RangesInside
  | _ => True

-- The bytes of the texts that a call works with: those it is given and those the terminal shows.
def bytes (d : Desk) : Call → Nat
  | startCommand command prompt => byteLength (command.getD []) + byteLength (prompt.getD []) +
      byteLength d.stage.terminal.clearAll.snapshot.text
  | handle e => e.bytes + byteLength d.stage.terminal.snapshot.text
  | _ => byteLength d.stage.terminal.snapshot.text

-- All texts of a call are in memory together with the document and up to two line feeds, so that they
-- have offsets.
def Fits (d : Desk) (c : Call) : Prop :=
  d.recorder.transcript.document.length + c.bytes d + 2 ≤ maxOffset

end Call

namespace Desk

-- Nothing of the record is changed; the terminal, the mailbox, listeners, routers and scopes may be.
structure Around (d d' : Desk) : Prop where
  record : d.recorder.transcript.SameRecord d'.recorder.transcript
  state : d'.recorder.state = d.recorder.state
  epoch : d'.recorder.epoch = d.recorder.epoch
  caret : d'.recorder.viewport.caret = d.recorder.viewport.caret
  disposed : d'.recorder.viewport.disposed = d.recorder.viewport.disposed

theorem around_of_recorder {d d' : Desk} (h : d'.recorder = d.recorder) : d.Around d' := by
  refine ⟨⟨?_, ?_, ?_, ?_⟩, ?_, ?_, ?_, ?_⟩ <;> rw [h]

theorem around_stage (d : Desk) (stage : Stage) : d.Around { d with stage } :=
  around_of_recorder rfl

theorem Backstage.around {d d' : Desk} (h : d.Backstage d') : d.Around d' :=
  ⟨h.sameRecord, h.state, h.epoch, congrArg Viewport.caret h.viewport,
    congrArg Viewport.disposed h.viewport⟩

theorem around_terminate (d : Desk) : d.Around d.terminate := by
  obtain ⟨⟨htext, hblocks, hpending, hnext⟩, hstate, hepoch, hcaret, hdisposed⟩ :=
    (backstage_closeCurrentScope d).around
  exact ⟨⟨htext, hblocks, hpending, hnext⟩, hstate, hepoch, hcaret, hdisposed⟩

inductive Reachable : Desk → Prop where
  | new (stage : Stage) : Reachable { stage }
  | call {d : Desk} (c : Call) : Reachable d → c.RangesInside → c.Fits d → Reachable (c.run d).state
  | around {d d' : Desk} : Reachable d → d.Around d' → Reachable d'

-- A recorder that is not idle has an open block.
def Shaped (d : Desk) : Prop :=
  d.Resting ∨ ∃ before prompt command output closed b,
    d.Recording before prompt command output closed b

-- The reasons for which a call may be refused. They are not about offsets.
def Refusable (reason : Refusal) : Prop := reason = .noActiveBlock ∨ ∃ id, reason = .blockStillOpen id

-- What holds after every operation.
def Safe (o : Outcome Desk) : Prop :=
  o.state.Shaped ∧ ∀ reason, o.refusal? = some reason → Refusable reason

section Calls

variable {d d' : Desk}

theorem Resting.shaped (h : d.Resting) : d.Shaped := Or.inl h

theorem Recording.shaped {before prompt command output : Text} {closed : List Block} {b : Block}
    (h : d.Recording before prompt command output closed b) : d.Shaped := Or.inr ⟨_, _, _, _, _, _, h⟩

theorem Shaped.done (h : d.Shaped) : Safe (.done d) := ⟨h, fun _ hreason => by cases hreason⟩

theorem Shaped.refused (h : d.Shaped) {reason : Refusal} (hreason : Refusable reason) :
    Safe (.refused reason d) := by
  refine ⟨h, fun r hr => ?_⟩
  simp only [Outcome.refusal?, Option.some.injEq] at hr
  exact hr ▸ hreason

-- Nothing is ever restored.
theorem Safe.restoring {o : Outcome Desk} (h : Safe o) (before : Desk) :
    o.restoring before = o := by
  cases o with
  | done d => rfl
  | refused reason d =>
    have hreason := h.2 reason rfl
    cases reason with
    | badOffset => rcases hreason with h | ⟨id, h⟩ <;> cases h
    | noActiveBlock => rfl
    | blockStillOpen id => rfl
    | unknownBlock id => rfl

theorem Shaped.of_around (h : d.Shaped) (haround : d.Around d') : d'.Shaped := by
  rcases h with h | ⟨before, prompt, command, output, closed, b, h⟩
  · exact (h.congr haround.record haround.state haround.caret).shaped
  · exact (h.congr haround.record haround.caret).shaped

theorem Shaped.applyOutput (h : d.Shaped) {output : Snapshot} (hinside : output.RangesInside)
    (hfits : d.recorder.transcript.document.length + byteLength output.text ≤ maxOffset) :
    Safe (d.applyOutput output) := by
  rcases h with h | ⟨before, prompt, command, old, closed, b, h⟩
  · rw [h.applyOutput]
    exact h.shaped.done
  · obtain ⟨d', new, b', happly, -, hrecording, -⟩ :=
      h.applyOutput hinside fun _ => h.fits_of_room hfits
    rw [happly]
    exact hrecording.shaped.done

theorem Shaped.startBlock (h : d.Shaped) (command prompt : Option Text) (epoch : Nat)
    (hfits : d.recorder.transcript.document.length + (byteLength (command.getD []) +
      byteLength (prompt.getD [])) + byteLength d.stage.terminal.snapshot.text + 2 ≤ maxOffset) :
    Safe (d.startBlock command prompt epoch) := by
  rcases h with h | ⟨before, prompt', command', output, closed, b, h⟩
  · obtain ⟨d', output, b, hstart, hrecording⟩ := h.startBlock_of_room command prompt epoch hfits
    rw [hstart]
    exact hrecording.shaped.done
  · rw [h.startBlock_refused]
    exact h.shaped.refused (Or.inr ⟨b.id, rfl⟩)

theorem Shaped.finishBlock (h : d.Shaped) (exitCode : Int) {output : Snapshot}
    (hinside : output.RangesInside)
    (hfits : d.recorder.transcript.document.length + byteLength output.text ≤ maxOffset) :
    Safe (d.finishBlock exitCode (some output)) := by
  rcases h with h | ⟨before, prompt, command, old, closed, b, h⟩
  · obtain ⟨d', hfinish, hresting, -⟩ := h.finishBlock_refused exitCode (some output)
    rw [hfinish]
    exact hresting.shaped.refused (Or.inl rfl)
  · obtain ⟨d', hfinish, hresting⟩ := h.finishBlock exitCode hinside (h.fits_of_room hfits)
    rw [hfinish]
    exact hresting.shaped.done

theorem Shaped.insertEmptyLine (h : d.Shaped) : d.insertEmptyLine.Resting := by
  have hrests : d.closeCurrentScope.recorder.transcript.closeLast.Rests := by
    have hback := backstage_closeCurrentScope d
    rcases h with h | ⟨before, prompt, command, output, closed, b, h⟩
    · have hclosed := (h.of_backstage hback).rests
      rwa [closeLast_of_closed hclosed.closed]
    · have hclosed := h.of_backstage hback
      exact hclosed.ends.closeLast_rests hclosed.covers hclosed.ready
  exact ⟨hrests.appendLineBreak, rfl, rfl⟩

theorem resting_clearBlocks (d : Desk) : d.clearBlocks.Resting :=
  ⟨clear_rests _, rfl, (congrArg byteLength (clear_text _)).symm⟩

-- An open block stays open when the view is disposed of.
theorem Shaped.dispose (h : d.Shaped) : d.dispose.Shaped := by
  have hback := backstage_closeCurrentScope d
  rcases h with h | ⟨before, prompt, command, output, closed, b, h⟩
  · have hclosed := h.of_backstage hback
    exact Resting.shaped ⟨hclosed.rests, rfl, hclosed.caret⟩
  · have hdisposed : d.dispose.Recording before prompt command output closed b :=
      (h.of_backstage hback).congr ⟨rfl, rfl, rfl, rfl⟩ rfl
    exact hdisposed.shaped

theorem Shaped.of_backstage (h : d.Shaped) (hback : d.Backstage d') : d'.Shaped :=
  h.of_around hback.around

theorem Shaped.changeAlternate (h : d.Shaped) (enabled : Bool)
    (hfits : d.recorder.transcript.document.length +
      byteLength d.stage.terminal.snapshot.text ≤ maxOffset) :
    Safe (d.changeAlternate enabled) := by
  rcases h with h | ⟨before, prompt, command, output, closed, b, h⟩
  · have hsame : d.changeAlternate enabled = .done d := by
      simp only [Desk.changeAlternate, h.idle]
    rw [hsame]
    exact h.shaped.done
  · have hback := backstage_openScope d b.id
    unfold Desk.changeAlternate
    split
    · have hsuspended : (d.closeCurrentScope.modifyRecorder fun r =>
          { r with state := .suspended }).Recording before prompt command output closed b :=
        (h.of_backstage (backstage_closeCurrentScope d)).congr ⟨rfl, rfl, rfl, rfl⟩ rfl
      exact hsuspended.shaped.done
    · rw [h.activeId?]
      have hopened : ((d.openScope b.id).modifyRecorder fun r =>
          { r with state := .running }).Recording before prompt command output closed b :=
        (h.of_backstage hback).congr ⟨rfl, rfl, rfl, rfl⟩ rfl
      refine hopened.shaped.applyOutput (Terminal.snapshot_rangesInside _) ?_
      have hterminal : ((d.openScope b.id).modifyRecorder fun r =>
          { r with state := .running }).stage.terminal = d.stage.terminal := hback.terminal
      rw [hterminal, hopened.length_eq, ← h.length_eq]
      exact hfits
    · exact h.shaped.done

theorem Shaped.terminate (h : d.Shaped) : d.terminate.Shaped := h.of_around d.around_terminate

-- A start while a command runs concludes that command's block first.
theorem Shaped.handleEvent (h : d.Shaped) {e : Event} (hinside : e.RangesInside)
    (hfits : d.recorder.transcript.document.length + (e.bytes +
      byteLength d.stage.terminal.snapshot.text) + 2 ≤ maxOffset) :
    Safe (d.handleEvent e) := by
  cases e with
  | outputChanged output =>
    simp only [Event.bytes] at hfits
    simp only [Desk.handleEvent]
    split
    · exact h.applyOutput hinside (by omega)
    · exact h.done
  | commandStarted command prompt epoch =>
    simp only [Event.bytes] at hfits
    simp only [Desk.handleEvent]
    split
    · exact h.startBlock command prompt epoch (by omega)
    · rename_i hbusy
      rcases h with h | ⟨before, prompt', command', output, closed, b, h⟩
      · exact absurd h.idle hbusy
      · obtain ⟨d', hfinish, hresting, hterminal, hlength⟩ := h.finishBlock_none 0
        rw [hfinish]
        exact hresting.shaped.startBlock command prompt epoch (by rw [hterminal]; omega)
  | commandFinished exitCode output =>
    simp only [Event.bytes] at hfits
    simp only [Desk.handleEvent]
    split
    · exact h.done
    · exact h.finishBlock exitCode hinside (by omega)
  | cleared => exact (resting_clearBlocks d).shaped.done
  | alternateChanged enabled => exact h.changeAlternate enabled (by omega)
  | terminated => exact h.terminate.done
  | disposed => exact h.dispose.done

theorem Shaped.startCommand (h : d.Shaped) (command prompt : Option Text)
    (hfits : (Call.startCommand command prompt).Fits d) : Safe (d.startCommand command prompt) := by
  unfold Desk.startCommand
  split
  · rename_i b hactive
    exact h.refused (Or.inr ⟨b.id, rfl⟩)
  · have hcleared : Desk.Shaped { d with stage :=
        { d.stage with terminal := d.stage.terminal.clearAll } } :=
      h.of_around (d.around_stage _)
    have hstart := hcleared.startBlock command prompt d.stage.terminal.clearAll.epoch (by
      simp only [Call.Fits, Call.bytes] at hfits
      simp only
      omega)
    rwa [hstart.restoring]

theorem Shaped.finishCommand (h : d.Shaped) (exitCode : Int)
    (hfits : (Call.finishCommand exitCode).Fits d) : Safe (d.finishCommand exitCode) := by
  have hback := backstage_closeCurrentScope d
  have hfinish := (h.of_backstage hback).finishBlock exitCode
    (Terminal.snapshot_rangesInside d.closeCurrentScope.stage.terminal) (by
      simp only [Call.Fits, Call.bytes] at hfits
      rw [hback.terminal, hback.transcript]
      omega)
  simp only [Desk.finishCommand]
  rwa [hfinish.restoring]

theorem Shaped.call (h : d.Shaped) (c : Call) (hinside : c.RangesInside) (hfits : c.Fits d) :
    Safe (c.run d) := by
  cases c with
  | startCommand command prompt => exact h.startCommand command prompt hfits
  | finishCommand exitCode => exact h.finishCommand exitCode hfits
  | insertEmptyLine => exact h.insertEmptyLine.shaped.done
  | changeAlternate enabled =>
    refine h.changeAlternate enabled ?_
    simp only [Call.Fits, Call.bytes] at hfits
    omega
  | clearBlocks => exact (resting_clearBlocks d).shaped.done
  | dispose => exact h.dispose.done
  | handle e =>
    have hsafe := h.handleEvent hinside hfits
    rwa [Call.run, Desk.handle, hsafe.restoring]

theorem resting_new (stage : Stage) : Resting { stage } :=
  ⟨⟨.empty, fun b hb => (List.not_mem_nil hb).elim,
    ⟨.nil, fun b hb => (List.not_mem_nil hb).elim⟩, fun h => by cases h⟩, rfl, rfl⟩

theorem Reachable.shaped (h : d.Reachable) : d.Shaped := by
  induction h with
  | new stage => exact (resting_new stage).shaped
  | call c _ hinside hfits ih => exact (ih.call c hinside hfits).1
  | around _ haround ih => exact ih.of_around haround

theorem Shaped.laid (h : d.Shaped) :
    Laid d.recorder.transcript.document.text d.recorder.transcript.blocks := by
  rcases h with h | ⟨before, prompt, command, output, closed, b, h⟩
  · exact h.rests.laid
  · rw [h.ends.text, h.ends.blocks]
    exact h.ready.laid_block h.covers

theorem Shaped.caret (h : d.Shaped) :
    d.recorder.viewport.caret = d.recorder.transcript.document.length := by
  rcases h with h | ⟨before, prompt, command, output, closed, b, h⟩
  · exact h.caret
  · rw [h.caret, h.length_eq]

end Calls

-- The blocks lie one behind the other in the document, and the caret stands at its end.
structure WellLaid (d : Desk) : Prop where
  ordered : ∀ b ∈ d.recorder.transcript.blocks,
    b.start ≤ b.commandStart ∧ b.commandStart ≤ b.outputStart ∧ b.outputStart ≤ b.stop ∧
      b.stop ≤ d.recorder.transcript.document.length
  cuts : ∀ b ∈ d.recorder.transcript.blocks,
    IsCut d.recorder.transcript.document.text b.start ∧
      IsCut d.recorder.transcript.document.text b.commandStart ∧
      IsCut d.recorder.transcript.document.text b.outputStart ∧
      IsCut d.recorder.transcript.document.text b.stop
  successive : d.recorder.transcript.blocks.IsChain fun a b => a.stop ≤ b.start
  gaps : ∀ n byte, (Utf8.encode d.recorder.transcript.document.text)[n]? = some byte →
    (∀ b ∈ d.recorder.transcript.blocks, ¬(b.start ≤ n ∧ n < b.stop)) → byte = 0x0A
  closed : AllClosed d.recorder.transcript.blocks.dropLast
  caret : d.recorder.viewport.caret = d.recorder.transcript.document.length

-- However a run came here, the blocks are well laid, and no call that follows meets a bad offset.
theorem Reachable.wellLaid {d : Desk} (h : d.Reachable) :
    d.WellLaid ∧ ∀ c : Call, c.RangesInside → c.Fits d →
      ∀ reason, (c.run d).refusal? = some reason → Refusable reason := by
  have hlaid := h.shaped.laid
  refine ⟨⟨hlaid.ordered, hlaid.isCut, hlaid.isChain, fun n byte => hlaid.gap,
    hlaid.closed_dropLast, h.shaped.caret⟩, ?_⟩
  intro c hinside hfits
  exact (h.shaped.call c hinside hfits).2

-- A command that is cut short by an empty line.
theorem Reachable.wellLaid_interrupted :
    (Call.insertEmptyLine.run ((Call.startCommand (some ['l', 's']) (some ['é'])).run
      { stage := { terminal := .new ⟨4, 2⟩ 0 } }).state).state.WellLaid :=
  (Reachable.wellLaid (.call .insertEmptyLine
    (.call (.startCommand (some ['l', 's']) (some ['é'])) (.new _) trivial
      (by unfold Call.Fits; decide +kernel)) trivial (by unfold Call.Fits; decide +kernel))).1

end Desk

end ShellTranscript
