import Mathlib.Tactic.Common
import ShellTranscript.Proofs.Recorder.Coherence
import ShellTranscript.Proofs.Recorder.Mirrored

-- What a recorder holds when nothing runs. Only a running command has a scope, without an open block
-- there is no epoch, and a block that is open while the recorder is idle was open when the recorder
-- was disposed of. Offsets play no part in this, nor does it matter what is refused.
namespace ShellTranscript

open Transcript

-- What becomes of a recorder at a turn other than its disposal: its blocks go on as they were, one of
-- them is being recorded, or all of them are closed and nothing is left of the last command.
inductive Recorder.Turned (r r' : Recorder) : Prop where
  | kept (roll : r.transcript.SameRoll r'.transcript) (state : r'.state = r.state)
      (epoch : r'.epoch = r.epoch) (scope : r'.scope = r.scope ∨ r'.scope = none)
  | engaged (rolled : r'.transcript.Rolled) (busy : r'.state ≠ .idle)
      (active : r'.transcript.activeBlock?.map Block.id ≠ none)
      (scope : r'.state = .running ∨ r'.scope = none)
  | rested (rolled : r'.transcript.Rolled) (idle : r'.state = .idle)
      (active : r'.transcript.activeBlock?.map Block.id = none) (epoch : r'.epoch = none)
      (scope : r'.scope = none)

-- The last argument is the block that the last disposal left open.
structure Recorder.Parked (r : Recorder) (left : Option Nat) : Prop where
  rolled : r.transcript.Rolled
  engaged : r.state ≠ .idle → r.transcript.activeBlock?.map Block.id ≠ none
  scope : r.state = .running ∨ r.scope = none
  epoch : r.transcript.activeBlock?.map Block.id = none → r.epoch = none
  left : r.state = .idle → ∀ id, r.transcript.activeBlock?.map Block.id = some id → left = some id

namespace Recorder

variable {r r' r'' : Recorder} {left : Option Nat}

theorem Turned.refl (r : Recorder) : r.Turned r := .kept (.refl _) rfl rfl (.inl rfl)

theorem Turned.trans (h : r.Turned r') (h' : r'.Turned r'') : r.Turned r'' := by
  cases h' with
  | engaged rolled busy active scope => exact .engaged rolled busy active scope
  | rested rolled idle active epoch scope => exact .rested rolled idle active epoch scope
  | kept roll state epoch scope =>
    cases h with
    | kept roll₁ state₁ epoch₁ scope₁ =>
      refine .kept (roll₁.trans roll) (state.trans state₁) (epoch.trans epoch₁) ?_
      exact scope.elim (fun hsame => scope₁.imp hsame.trans hsame.trans) .inr
    | engaged rolled₁ busy₁ active₁ scope₁ =>
      refine .engaged (roll.rolled rolled₁) (state ▸ busy₁) (roll.activeId? ▸ active₁) ?_
      exact scope₁.imp state.trans fun hnone => scope.elim (fun hsame => hsame.trans hnone) id
    | rested rolled₁ idle₁ active₁ epoch₁ scope₁ =>
      exact .rested (roll.rolled rolled₁) (state.trans idle₁) (roll.activeId?.trans active₁)
        (epoch.trans epoch₁) (scope.elim (fun hsame => hsame.trans scope₁) id)

-- A block stays the one that was left open for as long as it is open.
theorem Parked.turned (h : r.Parked left) (hturned : r.Turned r') :
    r'.Parked (left.filter fun id => r'.transcript.activeBlock?.map Block.id = some id) := by
  cases hturned with
  | kept roll state epoch scope =>
    refine ⟨roll.rolled h.rolled, ?_, ?_, ?_, ?_⟩
    · rw [state, roll.activeId?]
      exact h.engaged
    · rw [state]
      exact h.scope.imp id fun hnone => scope.elim (fun hsame => hsame.trans hnone) id
    · rw [roll.activeId?, epoch]
      exact h.epoch
    · intro hidle id hactive
      rw [h.left (state ▸ hidle) id (roll.activeId? ▸ hactive)]
      exact Option.filter_some_pos (by simpa using hactive)
  | engaged rolled busy active scope =>
    exact ⟨rolled, fun _ => active, scope, fun hnone => absurd hnone active,
      fun hidle => absurd hidle busy⟩
  | rested rolled idle active epoch scope =>
    refine ⟨rolled, fun hbusy => absurd idle hbusy, .inr scope, fun _ => epoch, fun _ id hactive => ?_⟩
    rw [active] at hactive
    cases hactive

end Recorder

namespace Desk

variable {d d' : Desk} {left : Option Nat} {id : Nat}

theorem turned_backstage (hback : d.Backstage d')
    (hscope : d'.recorder.scope = d.recorder.scope ∨ d'.recorder.scope = none) :
    d.recorder.Turned d'.recorder :=
  .kept hback.sameFace.roll hback.state hback.epoch hscope

theorem turned_closeCurrentScope (d : Desk) : d.recorder.Turned d.closeCurrentScope.recorder :=
  turned_backstage (backstage_closeCurrentScope d) (.inr (scope_closeCurrentScope d))

theorem turned_applyOutput (d : Desk) (output : Snapshot) :
    d.recorder.Turned (d.applyOutput output).state.recorder := by
  obtain ⟨hface, hwires⟩ := sameFace_applyOutput d output
  exact .kept hface.roll hface.state hface.epoch (.inl hwires.scope)

-- A block that is open is recorded from now on.
theorem turned_openScope (hrolled : d.transcript.Rolled) (hactive : d.activeId? = some id) :
    d.recorder.Turned
      ((d.openScope id).modifyRecorder fun r => { r with state := .running }).recorder := by
  have hroll := (backstage_openScope d id).sameFace.roll
  exact .engaged (hroll.rolled hrolled) RecorderState.noConfusion
    (ne_of_eq_of_ne (hroll.activeId?.trans hactive) (Option.some_ne_none id)) (.inl rfl)

theorem turned_startBlock (hrolled : d.transcript.Rolled) (command prompt : Option Text)
    (epoch : Nat) : d.recorder.Turned (d.startBlock command prompt epoch).state.recorder := by
  unfold startBlock
  cases hactive : d.transcript.activeBlock? with
  | some b =>
    rw [start_of_active hactive]
    exact .refl _
  | none =>
    have hstart := yields_start hactive command prompt
    split
    · exact .refl _
    · rename_i id t hok
      obtain ⟨rfl, hroll, hnext⟩ := hstart.of_ok hok
      refine Recorder.Turned.trans ?_ (turned_applyOutput _ _)
      -- The block is the last one, and it is open.
      generalize hopened : ((d.withTranscript t).modifyRecorder fun r =>
        { r with state := .running, epoch := some epoch }).showCaret _ = c
      have hback := backstage_openScope c d.transcript.nextId
      have htranscript : c.recorder.transcript = t := by rw [← hopened]; rfl
      have hrunning : c.recorder.state = .running := by rw [← hopened]; rfl
      have hroll' := hback.sameFace.roll
      rw [Desk.transcript, htranscript] at hroll'
      refine .engaged (hroll'.rolled (hrolled.concat hactive hroll hnext)) ?_ ?_
        (.inl (hback.state.trans hrunning))
      · rw [hback.state, hrunning]
        exact RecorderState.noConfusion
      · exact ne_of_eq_of_ne (hroll'.activeId?.trans (activeId?_concat hroll))
          (Option.some_ne_none _)

theorem turned_finishBlock (hrolled : d.transcript.Rolled) (exitCode : Int)
    (output : Option Snapshot) :
    (d.finishBlock exitCode output).Spares fun d' => d.recorder.Turned d'.recorder := by
  have hclosed := backstage_closeCurrentScope d
  have hscope := scope_closeCurrentScope d
  have hturned := turned_closeCurrentScope d
  unfold Desk.finishBlock
  generalize d.closeCurrentScope = c at hclosed hscope hturned
  have hrolled' := hclosed.sameFace.roll.rolled hrolled
  refine Outcome.Spares.andThen (P := fun w => c.SameFace w ∧ c.SameWires w) ?_
    (fun w hw => hturned.trans (.kept hw.1.roll hw.1.state hw.1.epoch (.inl hw.2.scope)))
    fun w ⟨hface, hwires⟩ => ?_
  · split
    · exact sameFace_applyOutput c _
    · exact ⟨⟨.refl _, rfl, rfl, rfl⟩, rfl, rfl, rfl, rfl⟩
  · have hwritten := hface.roll.rolled hrolled'
    have hshut := hwires.scope.trans hscope
    dsimp only
    split
    · rename_i hactive
      exact .inr (.rested hwritten rfl (hface.activeId?.trans hactive) rfl hshut)
    · rename_i id hactive
      obtain ⟨entries, hroll⟩ := exists_roll_of_active (hface.activeId?.trans hactive)
      have hconclude := hwritten.conclude hroll exitCode
      split
      · rename_i reason hrefused
        exact .inl (congrArg some (hconclude.of_error hrefused))
      · rename_i t hok
        obtain ⟨hnext, hroll'⟩ := hconclude.of_ok hok
        obtain ⟨hdone, hinactive⟩ := hwritten.of_front hroll hnext hroll'
        exact .inr (.rested hdone rfl hinactive rfl hshut)

theorem turned_startCommand (hrolled : d.transcript.Rolled) (command prompt : Option Text) :
    d.recorder.Turned (d.startCommand command prompt).state.recorder := by
  unfold startCommand
  split
  · exact .refl _
  · refine Outcome.state_restoring (P := fun d' : Desk => d.recorder.Turned d'.recorder) (.refl _) ?_
    exact turned_startBlock (d := { d with stage :=
      { d.stage with terminal := d.stage.terminal.clearAll } }) hrolled command prompt _

theorem turned_finishCommand (hrolled : d.transcript.Rolled) (exitCode : Int) :
    d.recorder.Turned (d.finishCommand exitCode).state.recorder := by
  have hrolled' := (backstage_closeCurrentScope d).sameFace.roll.rolled hrolled
  refine Outcome.Spares.restoring (P := fun d' : Desk => d.recorder.Turned d'.recorder) ?_ (.refl _)
  exact (turned_finishBlock hrolled' exitCode _).imp_right (turned_closeCurrentScope d).trans

theorem turned_insertEmptyLine (hrolled : d.transcript.Rolled) :
    d.recorder.Turned d.insertEmptyLine.recorder := by
  have hrolled' := (backstage_closeCurrentScope d).sameFace.roll.rolled hrolled
  obtain ⟨hclosed, hactive⟩ := hrolled'.closeLast
  have hsame : d.closeCurrentScope.transcript.closeLast.SameRoll
      d.closeCurrentScope.transcript.closeLast.appendLineBreak := ⟨rfl, rfl⟩
  exact .rested (hsame.rolled hclosed) rfl (hsame.activeId?.trans hactive) rfl
    (scope_closeCurrentScope d)

theorem turned_clearBlocks (d : Desk) : d.recorder.Turned d.clearBlocks.recorder := by
  obtain ⟨hrolled, hactive⟩ := rolled_clear d.closeCurrentScope.transcript
  exact .rested hrolled rfl hactive rfl (scope_closeCurrentScope d)

theorem turned_terminate (d : Desk) : d.recorder.Turned d.terminate.recorder :=
  (turned_closeCurrentScope d).trans (.kept (.refl _) rfl rfl (.inl rfl))

theorem turned_changeAlternate (h : d.recorder.Parked left) (enabled : Bool) :
    d.recorder.Turned (d.changeAlternate enabled).state.recorder := by
  unfold Desk.changeAlternate
  split
  · rename_i hrunning
    have hroll := (backstage_closeCurrentScope d).sameFace.roll
    refine .engaged (hroll.rolled h.rolled) RecorderState.noConfusion ?_
      (.inr (scope_closeCurrentScope d))
    exact fun hnone => h.engaged (hrunning ▸ RecorderState.noConfusion)
      (hroll.activeId?.symm.trans hnone)
  · split
    · rename_i hsuspended _ hnone
      exact absurd hnone (h.engaged (hsuspended ▸ RecorderState.noConfusion))
    · rename_i id hactive
      exact (turned_openScope h.rolled hactive).trans (turned_applyOutput _ _)
  · exact .refl _

theorem turned_handle (h : d.recorder.Parked left) {e : Event} (he : e ≠ .disposed) :
    d.recorder.Turned (d.handle e).state.recorder := by
  refine Outcome.Spares.restoring (P := fun d' : Desk => d.recorder.Turned d'.recorder) ?_ (.refl _)
  cases e with
  | outputChanged output =>
    simp only [handleEvent]
    split
    · exact .inr (turned_applyOutput d output)
    · exact .inr (.refl _)
  | commandStarted command prompt epoch =>
    simp only [handleEvent]
    split
    · exact .inr (turned_startBlock h.rolled command prompt epoch)
    · have hfinish := turned_finishBlock h.rolled 0 none
      cases hdone : d.finishBlock 0 none with
      | refused reason d₁ =>
        rw [hdone] at hfinish
        exact hfinish
      | done d₁ =>
        rw [hdone] at hfinish
        have hturned : d.recorder.Turned d₁.recorder :=
          hfinish.resolve_left (by simp [Outcome.refusal?])
        exact .inr (hturned.trans (turned_startBlock (h.turned hturned).rolled command prompt epoch))
  | commandFinished exitCode output =>
    simp only [handleEvent]
    split
    · exact .inr (.refl _)
    · exact turned_finishBlock h.rolled exitCode (some output)
  | cleared => exact .inr (turned_clearBlocks d)
  | alternateChanged enabled => exact .inr (turned_changeAlternate h enabled)
  | terminated => exact .inr (turned_terminate d)
  | disposed => exact absurd rfl he

theorem Parked.dispose (h : d.recorder.Parked left) : d.dispose.recorder.Parked d.activeId? := by
  have hroll := (backstage_closeCurrentScope d).sameFace.roll
  have hactive : d.dispose.activeId? = d.activeId? := hroll.activeId?
  refine ⟨hroll.rolled h.rolled, fun hbusy => absurd rfl hbusy, .inr (scope_closeCurrentScope d), ?_, ?_⟩
  · intro hnone
    exact (backstage_closeCurrentScope d).epoch.trans (h.epoch (hactive.symm.trans hnone))
  · intro _ id hid
    exact hactive.symm.trans hid

theorem turned_call (h : d.recorder.Parked left) {c : Call} (hc : c ≠ .dispose)
    (hhandle : c ≠ .handle .disposed) : d.recorder.Turned (c.run d).state.recorder := by
  cases c with
  | startCommand command prompt => exact turned_startCommand h.rolled command prompt
  | finishCommand exitCode => exact turned_finishCommand h.rolled exitCode
  | insertEmptyLine => exact turned_insertEmptyLine h.rolled
  | changeAlternate enabled => exact turned_changeAlternate h enabled
  | clearBlocks => exact turned_clearBlocks d
  | dispose => exact absurd rfl hc
  | handle e => exact turned_handle h fun he => hhandle (congrArg Call.handle he)

theorem turned_deferNote (d : Desk) (label : Text) :
    d.recorder.Turned (d.deferNote label).1.recorder := by
  refine turned_backstage (backstage_deferNote d label) (.inl ?_)
  unfold deferNote
  split
  · rfl
  · rename_i index _
    cases hs : d.recorder.scopes[index]? with
    | none => rw [withScope_none hs]
    | some s => exact (recorder_withScope hs).2

-- The steps at which a recorder is disposed of.
def Step.Disposes (d : Desk) : Step → Prop
  | call c => c = .dispose ∨ c = .handle .disposed
  | next => d.nextEvent? = some .disposed
  | _ => False

theorem Parked.play_disposes (h : d.recorder.Parked left) {s : Step} (hs : s.Disposes d) :
    (s.play d).recorder.Parked d.activeId? := by
  cases s with
  | call c =>
    rcases hs with rfl | rfl
    · exact Parked.dispose h
    · exact Parked.dispose h
  | next =>
    rcases handleNext_cases d with ⟨-, hnone⟩ | ⟨task, rest, htasks, hnext⟩
    · simp only [Step.Disposes, nextEvent?, hnone, reduceCtorEq] at hs
    · rw [Step.play, hnext]
      cases task with
      | event e =>
        simp only [Step.Disposes, nextEvent?, htasks, Option.some.injEq] at hs
        subst hs
        exact Parked.dispose (d := d.withMailbox { d.stage.mailbox with tasks := rest }) h
      | invoke label => simp only [Step.Disposes, nextEvent?, htasks, reduceCtorEq] at hs
  | _ => exact hs.elim

theorem turned_play (h : d.recorder.Parked left) {s : Step} (hs : ¬s.Disposes d) :
    d.recorder.Turned (s.play d).recorder := by
  cases s with
  | call c =>
    obtain ⟨hc, hhandle⟩ := not_or.mp hs
    exact turned_call h hc hhandle
  | next =>
    rcases handleNext_cases d with ⟨hsame, -⟩ | ⟨task, rest, htasks, hnext⟩
    · rw [Step.play, hsame]
      exact .refl _
    · rw [Step.play, hnext]
      cases task with
      | event e =>
        have he : e ≠ .disposed := by
          rintro rfl
          exact hs (by simp only [Step.Disposes, nextEvent?, htasks])
        exact turned_handle (d := d.withMailbox { d.stage.mailbox with tasks := rest }) h he
      | invoke label => exact .kept (.refl _) rfl rfl (.inl rfl)
  | closeScope index =>
    exact turned_backstage (backstage_withScope d index Scope.close) (.inl (scope_closeScope d index))
  | deferNote label => exact turned_deferNote d label
  | setRouter router => exact .kept (.refl _) rfl rfl (.inl rfl)
  | change | poll | post => exact .refl _

-- Whatever is done to a recorder from its beginning, with the block that its last disposal left open.
-- Listeners of the document come and go, and the view takes what it is asked to scroll to.
inductive Used : Desk → Option Nat → Prop where
  | new (stage : Stage) : Used { stage } none
  | disposed {d : Desk} {left : Option Nat} {s : Step} : Used d left → s.Disposes d →
      Used (s.play d) d.activeId?
  | step {d : Desk} {left : Option Nat} {s : Step} : Used d left → ¬s.Disposes d →
      Used (s.play d) (left.filter fun id => (s.play d).activeId? = some id)
  | listen {d : Desk} {left : Option Nat} (name : Text) : Used d left → Used (d.listen name) left
  | unlisten {d : Desk} {left : Option Nat} (id : Nat) : Used d left →
      Used (Deed.run d (.unlisten id)) left
  | takeScroll {d : Desk} {left : Option Nat} : Used d left → Used d.takeScroll.2 left

theorem Used.parked (h : Used d left) : d.recorder.Parked left := by
  induction h with
  | new stage =>
    exact ⟨⟨⟨.nil, fun b hb => (List.not_mem_nil hb).elim⟩, fun b hb => (List.not_mem_nil hb).elim⟩,
      fun hbusy => absurd rfl hbusy, .inr rfl, fun _ => rfl, fun _ id hactive => by cases hactive⟩
  | disposed _ hs ih => exact Parked.play_disposes ih hs
  | step _ hs ih => exact ih.turned (turned_play ih hs)
  | @listen d _ name _ ih =>
    have hroll : d.transcript.SameRoll (d.listen name).transcript := ⟨rfl, rfl⟩
    exact ⟨hroll.rolled ih.rolled, ih.engaged, ih.scope, ih.epoch, ih.left⟩
  | @unlisten d _ id _ ih =>
    have hroll : d.transcript.SameRoll (Deed.run d (.unlisten id)).transcript := ⟨rfl, rfl⟩
    exact ⟨hroll.rolled ih.rolled, ih.engaged, ih.scope, ih.epoch, ih.left⟩
  | takeScroll _ ih => exact ⟨ih.rolled, ih.engaged, ih.scope, ih.epoch, ih.left⟩

end Desk

end ShellTranscript
