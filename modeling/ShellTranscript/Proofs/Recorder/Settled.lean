import Mathlib.Tactic.Common
import ShellTranscript.Proofs.Recorder.Flush
import ShellTranscript.Proofs.Session.Lifecycle

-- Between two commands no block is open. A recorder opens one only when a command starts, and closes
-- it at the latest when the command finishes; whatever else it is told or asked leaves no block open
-- that it does not record into. Only a recorder that was disposed of may keep one, since it stops
-- without closing its block.
namespace ShellTranscript

open Text Transcript

namespace Desk

-- As long as a recorder is not disposed of, it has no open block while it is idle or no command runs.
def Settled (d : Desk) (isRunning : Prop) : Prop :=
  d.recorder.viewport.disposed = false → d.recorder.state = .idle ∨ ¬isRunning → d.Resting

-- What starts nothing: a recorder at rest stays so, and one that is busy goes on or comes to rest.
structure Lulls (d d' : Desk) : Prop where
  seen : d'.recorder.viewport.disposed = false → d.recorder.viewport.disposed = false
  resting : d.Resting → d'.Resting
  busy : d.recorder.state ≠ .idle → d'.recorder.viewport.disposed = false →
    d'.Resting ∨ d'.recorder.state ≠ .idle

section Lulls

variable {d d' d'' : Desk} {isRunning : Prop}

theorem Settled.of_lulls (h : d.Settled isRunning) (hlulls : d.Lulls d') : d'.Settled isRunning := by
  intro hseen hquiet
  by_cases hidle : d.recorder.state = .idle ∨ ¬isRunning
  · exact hlulls.resting (h (hlulls.seen hseen) hidle)
  · rcases hlulls.busy (fun hstate => hidle (.inl hstate)) hseen with hresting | hbusy
    · exact hresting
    · exact absurd (hquiet.resolve_left hbusy) fun hstill => hidle (.inr hstill)

theorem Lulls.refl (d : Desk) : d.Lulls d := ⟨id, id, fun hbusy _ => .inr hbusy⟩

theorem Lulls.trans (h : d.Lulls d') (h' : d'.Lulls d'') : d.Lulls d'' := by
  refine ⟨fun hseen => h.seen (h'.seen hseen), fun hresting => h'.resting (h.resting hresting), ?_⟩
  intro hbusy hseen
  rcases h.busy hbusy (h'.seen hseen) with hresting | hstill
  · exact .inl (h'.resting hresting)
  · exact h'.busy hstill hseen

theorem Around.lulls (h : d.Around d') : d.Lulls d' := by
  refine ⟨?_, fun hresting => hresting.congr h.record h.state h.caret, fun hbusy _ => .inr ?_⟩
  · rw [h.disposed]
    exact id
  · rw [h.state]
    exact hbusy

theorem Resting.lulls (h : d'.Resting)
    (hseen : d'.recorder.viewport.disposed = d.recorder.viewport.disposed) : d.Lulls d' :=
  ⟨fun hseen' => hseen ▸ hseen', fun _ => h, fun _ _ => .inl h⟩

end Lulls

section Disposed

theorem disposed_applyOutput (d : Desk) (output : Snapshot) :
    (d.applyOutput output).state.recorder.viewport.disposed = d.recorder.viewport.disposed := by
  rcases applyOutput_cases d output with hsame | ⟨t, caret, hwritten⟩
  · rw [hsame]
  · rw [hwritten]
    rfl

theorem disposed_startBlock (d : Desk) (command prompt : Option Text) (epoch : Nat) :
    (d.startBlock command prompt epoch).state.recorder.viewport.disposed =
      d.recorder.viewport.disposed := by
  unfold startBlock
  split
  · rfl
  · rw [disposed_applyOutput, (backstage_openScope _ _).viewport]
    rfl

theorem disposed_finishBlock (d : Desk) (exitCode : Int) (output : Option Snapshot) :
    (d.finishBlock exitCode output).state.recorder.viewport.disposed =
      d.recorder.viewport.disposed := by
  have hclosed := congrArg Viewport.disposed (backstage_closeCurrentScope d).viewport
  refine Outcome.state_andThen (P := fun d' : Desk =>
    d'.recorder.viewport.disposed = d.recorder.viewport.disposed) ?_ fun d' h => ?_
  · split
    · exact (disposed_applyOutput _ _).trans hclosed
    · exact hclosed
  · split
    · exact h
    · dsimp only
      split <;> exact h

theorem disposed_changeAlternate (d : Desk) (enabled : Bool) :
    (d.changeAlternate enabled).state.recorder.viewport.disposed =
      d.recorder.viewport.disposed := by
  unfold changeAlternate
  split
  · exact congrArg Viewport.disposed (backstage_closeCurrentScope d).viewport
  · split
    · rfl
    · rw [disposed_applyOutput]
      exact congrArg Viewport.disposed (backstage_openScope d _).viewport
  · rfl

-- Only the end of the view tells a recorder that nobody looks on any more.
theorem disposed_handle (d : Desk) {e : Event} (he : e ≠ .disposed) :
    (d.handle e).state.recorder.viewport.disposed = d.recorder.viewport.disposed := by
  have hclosed := congrArg Viewport.disposed (backstage_closeCurrentScope d).viewport
  refine Outcome.state_restoring (P := fun d' : Desk =>
    d'.recorder.viewport.disposed = d.recorder.viewport.disposed) rfl ?_
  cases e with
  | outputChanged output =>
    simp only [handleEvent]
    split
    · exact disposed_applyOutput d output
    · rfl
  | commandStarted command prompt epoch =>
    refine Outcome.state_andThen (P := fun d' : Desk =>
      d'.recorder.viewport.disposed = d.recorder.viewport.disposed) ?_ fun d' h => ?_
    · split
      · rfl
      · exact disposed_finishBlock d 0 none
    · exact (disposed_startBlock d' command prompt epoch).trans h
  | commandFinished exitCode output =>
    simp only [handleEvent]
    split
    · rfl
    · exact disposed_finishBlock d exitCode (some output)
  | cleared => exact hclosed
  | alternateChanged enabled => exact disposed_changeAlternate d enabled
  | terminated => exact hclosed
  | disposed => exact absurd rfl he

end Disposed

section Quiet

variable {d : Desk} {isRunning : Prop}

theorem lulls_applyOutput (d : Desk) (output : Snapshot) : d.Lulls (d.applyOutput output).state := by
  refine ⟨?_, fun hresting => ?_, fun hbusy _ => .inr ?_⟩
  · rw [disposed_applyOutput]
    exact id
  · rw [hresting.applyOutput]
    exact hresting
  · rcases applyOutput_cases d output with hsame | ⟨t, caret, hwritten⟩
    · rw [hsame]
      exact hbusy
    · rw [hwritten]
      exact hbusy

theorem Shaped.resting_finishBlock (h : d.Shaped) (exitCode : Int) {output : Snapshot}
    (hinside : output.RangesInside)
    (hfits : d.recorder.transcript.document.length + byteLength output.text ≤ maxOffset) :
    (d.finishBlock exitCode (some output)).state.Resting := by
  rcases h with h | ⟨before, prompt, command, old, closed, b, h⟩
  · obtain ⟨d', hfinish, hresting, -⟩ := h.finishBlock_refused exitCode (some output)
    rw [hfinish]
    exact hresting
  · obtain ⟨d', hfinish, hresting⟩ := h.finishBlock exitCode hinside (h.fits_of_room hfits)
    rw [hfinish]
    exact hresting

-- Only a recorder with an open block is suspended, and it takes up that block again.
theorem Shaped.lulls_changeAlternate (h : d.Shaped) (enabled : Bool) :
    d.Lulls (d.changeAlternate enabled).state := by
  have hbusy : ∀ {d' : Desk} {state : RecorderState}, d.Backstage d' → d.recorder.state ≠ .idle →
      state ≠ .idle → d.Lulls (d'.modifyRecorder fun r => { r with state }) := by
    intro d' state hback hnotIdle hstate
    refine ⟨?_, fun hresting => absurd hresting.idle hnotIdle, fun _ _ => .inr hstate⟩
    rw [← hback.viewport]
    exact id
  unfold Desk.changeAlternate
  split
  · rename_i hstate
    refine hbusy (backstage_closeCurrentScope d) ?_ ?_ <;> simp [hstate]
  · rename_i hstate
    have hnotIdle : d.recorder.state ≠ .idle := by simp [hstate]
    rcases h with h | ⟨before, prompt, command, output, closed, b, h⟩
    · exact absurd h.idle hnotIdle
    · rw [h.activeId?]
      exact (hbusy (backstage_openScope d _) hnotIdle (by simp)).trans (lulls_applyOutput _ _)
  · exact .refl d

theorem Shaped.lulls_finishCommand (h : d.Shaped) (exitCode : Int)
    (hfits : (Call.finishCommand exitCode).Fits d) : d.Lulls (d.finishCommand exitCode).state := by
  have hback := backstage_closeCurrentScope d
  have hresting := (h.of_backstage hback).resting_finishBlock exitCode
    (Terminal.snapshot_rangesInside d.closeCurrentScope.stage.terminal) (by
      simp only [Call.Fits, Call.bytes] at hfits
      rw [hback.terminal, hback.transcript]
      omega)
  refine Outcome.state_restoring (.refl d) (hresting.lulls ?_)
  rw [disposed_finishBlock, hback.viewport]

theorem Shaped.lulls_insertEmptyLine (h : d.Shaped) : d.Lulls d.insertEmptyLine := by
  have hclosed := (backstage_closeCurrentScope d).viewport
  exact h.insertEmptyLine.lulls (congrArg Viewport.disposed hclosed :)

theorem lulls_clearBlocks (d : Desk) : d.Lulls d.clearBlocks := by
  have hclosed := (backstage_closeCurrentScope d).viewport
  exact (resting_clearBlocks d).lulls (congrArg Viewport.disposed hclosed :)

theorem lulls_dispose (d : Desk) : d.Lulls d.dispose := by
  refine ⟨fun hseen => Bool.noConfusion hseen, fun hresting => ?_, fun _ hseen =>
    Bool.noConfusion hseen⟩
  have hclosed := hresting.of_backstage (backstage_closeCurrentScope d)
  exact ⟨hclosed.rests, rfl, hclosed.caret⟩

theorem lulls_terminate (d : Desk) : d.Lulls d.terminate := d.around_terminate.lulls

end Quiet

end Desk

-- A call that starts no command, and does not pass on that one starts or finishes.
def Call.IsQuiet : Call → Prop
  | startCommand _ _ => False
  | handle e => e.isLifecycle = false
  | _ => True

namespace Desk

section Events

variable {d : Desk} {isRunning : Prop}

theorem Shaped.lulls_handle (h : d.Shaped) {e : Event} (hquiet : e.isLifecycle = false) :
    d.Lulls (d.handle e).state := by
  refine Outcome.state_restoring (.refl d) ?_
  cases e with
  | outputChanged output =>
    simp only [Desk.handleEvent]
    split
    · exact lulls_applyOutput d output
    · exact .refl d
  | cleared => exact lulls_clearBlocks d
  | alternateChanged enabled => exact h.lulls_changeAlternate enabled
  | terminated => exact lulls_terminate d
  | disposed => exact lulls_dispose d
  | _ => cases hquiet

theorem Shaped.lulls_call (h : d.Shaped) {c : Call} (hquiet : c.IsQuiet) (hfits : c.Fits d) :
    d.Lulls (c.run d).state := by
  cases c with
  | startCommand command prompt => exact hquiet.elim
  | finishCommand exitCode => exact h.lulls_finishCommand exitCode hfits
  | insertEmptyLine => exact h.lulls_insertEmptyLine
  | changeAlternate enabled => exact h.lulls_changeAlternate enabled
  | clearBlocks => exact lulls_clearBlocks d
  | dispose => exact lulls_dispose d
  | handle e => exact h.lulls_handle hquiet

-- A start opens a block that the recorder then records into.
theorem Settled.handle_started (h : d.Settled False) {command prompt : Option Text} {epoch : Nat}
    (hfits : (Call.handle (.commandStarted command prompt epoch)).Fits d) :
    (d.handle (.commandStarted command prompt epoch)).state.Settled True := by
  intro hseen hquiet
  rw [disposed_handle d Event.noConfusion] at hseen
  have hroom := start_fits d command prompt epoch hfits
  obtain ⟨d', hhandle, hbusy⟩ := (h hseen (.inr id)).handle_started hseen command prompt epoch (by
    rw [byteLength_append] at hroom
    omega) fun _ => hroom
  rw [hhandle] at hquiet
  exact absurd (hquiet.resolve_right (not_not.mpr trivial)) hbusy.notIdle

-- A finish closes it, if it is still open.
theorem Settled.handle_finished (h : d.Settled isRunning) (hshaped : d.Shaped) {exitCode : Int}
    {output : Snapshot} (hinside : output.RangesInside)
    (hfits : (Call.handle (.commandFinished exitCode output)).Fits d) :
    (d.handle (.commandFinished exitCode output)).state.Settled False := by
  have hsafe := hshaped.handleEvent (e := .commandFinished exitCode output) hinside hfits
  simp only [Call.Fits, Call.bytes, Event.bytes] at hfits
  rw [Desk.handle, hsafe.restoring]
  simp only [Desk.handleEvent]
  split
  · rename_i hidle
    exact fun hseen _ => h hseen (.inl hidle)
  · exact fun _ _ => hshaped.resting_finishBlock exitCode hinside (by omega)

-- Starts and finishes that take turns find the recorder as they expect it.
theorem Settled.handle_inTurn {place first : Nat} (h : d.Settled (place % 2 = 1)) (hshaped : d.Shaped)
    {e : Event} (hturn : e.InTurn first place) (hinside : e.RangesInside)
    (hfits : (Call.handle e).Fits d) : (d.handle e).state.Settled ((place + 1) % 2 = 1) := by
  cases e with
  | commandStarted command prompt epoch =>
    have heven := hturn.1
    have hbefore : (place % 2 = 1) = False := eq_false (by omega)
    have hafter : ((place + 1) % 2 = 1) = True := eq_true (by omega)
    rw [hbefore] at h
    rw [hafter]
    exact h.handle_started hfits
  | commandFinished exitCode output =>
    have hodd := hturn.1
    have hafter : ((place + 1) % 2 = 1) = False := eq_false (by omega)
    rw [hafter]
    exact h.handle_finished hshaped hinside hfits
  | _ => exact hturn.elim

end Events

end Desk

end ShellTranscript
