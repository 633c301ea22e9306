import Mathlib.Tactic.Common
import ShellTranscript.Proofs.Recorder.Parked
import ShellTranscript.Proofs.Transcript.Procedures

-- What a refusal leaves behind. The calls of a recorder are taken statement by statement, so that all
-- that was closed, reset or written before a refusal stays so. A call that is refused for another
-- reason than an offset has nevertheless changed nothing: not the record, not the terminal, and
-- nobody was told of anything.
namespace ShellTranscript

open Transcript

namespace Outcome

variable {σ : Type} {o : Outcome σ}

theorem andThen_eq_done {next : σ → Outcome σ} {s' : σ} :
    o.andThen next = done s' ↔ ∃ s, o = done s ∧ next s = done s' := by
  cases o with
  | done s => simp [andThen]
  | refused reason s => simp [andThen]

-- Offsets are the one reason to refuse.
def Certain (o : Outcome σ) : Prop := ∀ reason s, o = refused reason s → reason = .badOffset

theorem certain_done (s : σ) : (done s).Certain := fun _ _ h => by cases h

theorem Certain.andThen {next : σ → Outcome σ} (h : o.Certain)
    (hnext : ∀ s, o = done s → (next s).Certain) : (o.andThen next).Certain := by
  cases o with
  | done s => exact hnext s rfl
  | refused reason s =>
    intro reason' s' heq
    cases heq
    exact h reason s rfl

theorem Certain.restoring (h : o.Certain) (before : σ) : (o.restoring before).Certain := by
  cases o with
  | done s => exact certain_done s
  | refused reason s =>
    cases h reason s rfl
    exact fun _ _ heq => by cases heq; rfl

end Outcome

namespace Procedure

variable {α γ : Type}

-- A procedure ends like an operation. What a refusal leaves behind is not compared.
def EndsLike (o : Outcome Desk) (p : Procedure Desk Unit) (d : Desk) : Prop :=
  match o with
  | .done d' => p d = .ok () d'
  | .refused reason _ => ∃ d', p d = .error reason d'

def inTranscript (p : Procedure Transcript α) : Procedure Desk α := fun d =>
  match p d.transcript with
  | .ok a t => .ok a (d.withTranscript t)
  | .error reason t => .error reason (d.withTranscript t)

theorem modify_bind {σ : Type} (f : σ → σ) (q : Unit → Procedure σ α) (s : σ) :
    (modify f >>= q) s = q () (f s) := rfl

def applyOutput (output : Snapshot) : Procedure Desk Unit := do
  let d ← get
  if d.recorder.viewport.disposed || output.alternate then pure ()
  else
    match d.activeId? with
    | none => pure ()
    | some id =>
      if d.recorder.epoch ≠ some output.epoch then pure ()
      else
        inTranscript (writeOutput id output)
        modify fun d => d.showCaret (d.stopOf id)

def startBlock (command prompt : Option Text) (epoch : Nat) : Procedure Desk Unit := do
  let id ← inTranscript (start command prompt)
  modify fun d => d.modifyRecorder fun r => { r with state := .running, epoch := some epoch }
  modify fun d => (d.showCaret (d.stopOf id)).openScope id
  applyOutput (← get).stage.terminal.snapshot

def lastOutput (active : Option Nat) (output : Option Snapshot) : Procedure Desk Unit :=
  match active, output with
  | some _, some output => applyOutput output
  | _, _ => pure ()

-- The state and the epoch are given up before it is asked whether a block is open.
def finishBlock (exitCode : Int) (output : Option Snapshot) : Procedure Desk Unit := do
  modify Desk.closeCurrentScope
  let active := (← get).activeId?
  lastOutput active output
  modify fun d => d.modifyRecorder fun r => { r with state := .idle, epoch := none }
  match active with
  | none => throw .noActiveBlock
  | some id =>
    inTranscript (conclude id exitCode)
    modify fun d => d.modifyRecorder fun r => { r with viewport :=
      { r.viewport with caret := d.transcript.document.length } }

-- The terminal is reset before the block is created.
def startCommand (command prompt : Option Text) : Procedure Desk Unit := do
  let d ← get
  match d.transcript.activeBlock? with
  | some b => throw (.blockStillOpen b.id)
  | none =>
    set { d with stage := { d.stage with terminal := d.stage.terminal.clearAll } }
    startBlock command prompt (← get).stage.terminal.epoch

def finishCommand (exitCode : Int) : Procedure Desk Unit := do
  modify Desk.closeCurrentScope
  finishBlock exitCode (some (← get).stage.terminal.snapshot)

def changeAlternate (enabled : Bool) : Procedure Desk Unit := do
  let d ← get
  match d.recorder.state, enabled with
  | .running, true =>
    modify Desk.closeCurrentScope
    modify fun d => d.modifyRecorder fun r => { r with state := .suspended }
  | .suspended, false =>
    match d.activeId? with
    | none => modify fun d => d.modifyRecorder fun r => { r with state := .idle }
    | some id =>
      modify fun d => d.openScope id
      modify fun d => d.modifyRecorder fun r => { r with state := .running }
      applyOutput (← get).stage.terminal.snapshot
  | _, _ => pure ()

def handle : Event → Procedure Desk Unit
  | .outputChanged output => do
    if (← get).recorder.state = .running then applyOutput output else pure ()
  | .commandStarted command prompt epoch => do
    if (← get).recorder.state = .idle then pure () else finishBlock 0 none
    startBlock command prompt epoch
  | .commandFinished exitCode output => do
    if (← get).recorder.state = .idle then pure () else finishBlock exitCode (some output)
  | .cleared => modify Desk.clearBlocks
  | .alternateChanged enabled => changeAlternate enabled
  | .terminated => modify Desk.terminate
  | .disposed => modify Desk.dispose

def call : Call → Procedure Desk Unit
  | .startCommand command prompt => startCommand command prompt
  | .finishCommand exitCode => finishCommand exitCode
  | .insertEmptyLine => modify Desk.insertEmptyLine
  | .changeAlternate enabled => changeAlternate enabled
  | .clearBlocks => modify Desk.clearBlocks
  | .dispose => modify Desk.dispose
  | .handle e => handle e

section Calls

variable {d : Desk} {o : Outcome Desk} {p q : Procedure Desk Unit} {f : Desk → Desk}

theorem EndsLike.of_modify (h : EndsLike o q (f d)) : EndsLike o (modify f >>= fun _ => q) d := h

theorem EndsLike.of_get {q : Desk → Procedure Desk Unit} (h : EndsLike o (q d) d) :
    EndsLike o (get >>= q) d := h

theorem EndsLike.andThen {next : Desk → Outcome Desk} (h : EndsLike o p d)
    (hnext : ∀ d', EndsLike (next d') q d') : EndsLike (o.andThen next) (p >>= fun _ => q) d := by
  cases o with
  | done d' =>
    have hnext := hnext d'
    unfold EndsLike at hnext ⊢
    rwa [Outcome.andThen, bind_ok h]
  | refused reason s =>
    obtain ⟨d', h⟩ := h
    exact ⟨d', bind_error h⟩

theorem EndsLike.restoring (h : EndsLike o p d) (before : Desk) :
    EndsLike (o.restoring before) p d := by
  cases o with
  | done d' => exact h
  | refused reason s => cases reason <;> exact h

theorem EndsLike.ite {c : Prop} [Decidable c] {o' : Outcome Desk} (hthen : c → EndsLike o p d)
    (helse : ¬c → EndsLike o' q d) : EndsLike (if c then o else o') (if c then p else q) d := by
  by_cases h : c
  · rw [if_pos h, if_pos h]
    exact hthen h
  · rw [if_neg h, if_neg h]
    exact helse h

theorem Ends.inTranscript {x : Except Refusal γ} {value : γ → α} {state : γ → Transcript}
    {p : Procedure Transcript α} (h : Ends x value state (p d.transcript)) :
    Ends x value (fun c => d.withTranscript (state c)) (inTranscript p d) := by
  cases x with
  | ok c =>
    rw [Ends] at h
    rw [Procedure.inTranscript, h]
    rfl
  | error reason =>
    obtain ⟨t, h⟩ := h
    rw [Procedure.inTranscript, h]
    exact ⟨d.withTranscript t, rfl⟩

-- An operation that first does something to the transcript.
theorem Ends.endsLike {x : Except Refusal γ} {value : γ → α} {state : γ → Desk}
    {p : Procedure Desk α} {q : α → Procedure Desk Unit} (h : Ends x value state (p d))
    (herror : ∀ reason, x = .error reason → ∃ d', o = .refused reason d')
    (hok : ∀ c, x = .ok c → EndsLike o (q (value c)) (state c)) : EndsLike o (p >>= q) d := by
  cases x with
  | ok c =>
    have hnext := hok c rfl
    unfold EndsLike at hnext ⊢
    rwa [bind_ok h]
  | error reason =>
    obtain ⟨d₁, rfl⟩ := herror reason rfl
    obtain ⟨d', h⟩ := h
    exact ⟨d', bind_error h⟩

theorem endsLike_applyOutput (d : Desk) (output : Snapshot) :
    EndsLike (d.applyOutput output) (applyOutput output) d := by
  refine EndsLike.of_get ?_
  unfold Desk.applyOutput
  refine EndsLike.ite (fun _ => rfl) fun _ => ?_
  cases d.activeId? with
  | none => rfl
  | some id =>
    refine EndsLike.ite (fun _ => rfl) fun _ => ?_
    refine (ends_writeOutput d.transcript id output).inTranscript.endsLike ?_ ?_
    · intro reason hrefused
      exact ⟨d, by rw [hrefused]⟩
    · intro t hwritten
      rw [hwritten]
      exact rfl

theorem endsLike_startBlock (d : Desk) (command prompt : Option Text) (epoch : Nat) :
    EndsLike (d.startBlock command prompt epoch) (startBlock command prompt epoch) d := by
  unfold Desk.startBlock
  refine (ends_start d.transcript command prompt).inTranscript.endsLike ?_ ?_
  · intro reason hrefused
    exact ⟨d, by rw [hrefused]⟩
  · rintro ⟨id, t⟩ hstarted
    rw [hstarted]
    exact EndsLike.of_modify (EndsLike.of_modify (EndsLike.of_get (endsLike_applyOutput _ _)))

theorem endsLike_finishBlock (d : Desk) (exitCode : Int) (output : Option Snapshot) :
    EndsLike (d.finishBlock exitCode output) (finishBlock exitCode output) d := by
  refine EndsLike.of_modify (EndsLike.of_get ?_)
  unfold Desk.finishBlock
  generalize d.closeCurrentScope = c
  refine EndsLike.andThen ?_ fun d' => EndsLike.of_modify ?_
  · cases c.activeId? with
    | none => rfl
    | some id =>
      cases output with
      | none => rfl
      | some output => exact endsLike_applyOutput c output
  · cases c.activeId? with
    | none => exact ⟨_, rfl⟩
    | some id =>
      refine (ends_conclude _ id exitCode).inTranscript.endsLike ?_ ?_
      · intro reason hrefused
        exact ⟨_, by dsimp only; rw [hrefused]⟩
      · intro t hconcluded
        dsimp only
        rw [hconcluded]
        exact rfl

theorem endsLike_startCommand (d : Desk) (command prompt : Option Text) :
    EndsLike (d.startCommand command prompt) (startCommand command prompt) d := by
  refine EndsLike.of_get ?_
  unfold Desk.startCommand
  cases d.transcript.activeBlock? with
  | some b => exact ⟨d, rfl⟩
  | none =>
    refine EndsLike.restoring ?_ d
    exact endsLike_startBlock { d with stage :=
      { d.stage with terminal := d.stage.terminal.clearAll } } command prompt _

theorem endsLike_finishCommand (d : Desk) (exitCode : Int) :
    EndsLike (d.finishCommand exitCode) (finishCommand exitCode) d :=
  EndsLike.of_modify (EndsLike.of_get ((endsLike_finishBlock _ exitCode _).restoring d))

theorem endsLike_changeAlternate (d : Desk) (enabled : Bool) :
    EndsLike (d.changeAlternate enabled) (changeAlternate enabled) d := by
  refine EndsLike.of_get ?_
  unfold Desk.changeAlternate
  cases d.recorder.state <;> cases enabled
  case running.true => rfl
  case suspended.false =>
    dsimp only
    cases d.activeId? with
    | none => rfl
    | some id =>
      exact EndsLike.of_modify (EndsLike.of_modify (EndsLike.of_get (endsLike_applyOutput _ _)))
  all_goals rfl

theorem endsLike_handle (d : Desk) (e : Event) : EndsLike (d.handle e) (handle e) d := by
  refine EndsLike.restoring ?_ d
  cases e with
  | outputChanged output =>
    exact EndsLike.of_get (EndsLike.ite (fun _ => endsLike_applyOutput d output) fun _ => rfl)
  | commandStarted command prompt epoch =>
    refine EndsLike.of_get ?_
    unfold Desk.handleEvent
    by_cases hidle : d.recorder.state = .idle
    · simp only [if_pos hidle]
      exact endsLike_startBlock d command prompt epoch
    · simp only [if_neg hidle]
      exact (endsLike_finishBlock d 0 none).andThen fun d' =>
        endsLike_startBlock d' command prompt epoch
  | commandFinished exitCode output =>
    exact EndsLike.of_get
      (EndsLike.ite (fun _ => rfl) fun _ => endsLike_finishBlock d exitCode (some output))
  | alternateChanged enabled => exact endsLike_changeAlternate d enabled
  | cleared | terminated | disposed => rfl

theorem endsLike_call (d : Desk) (c : Call) : EndsLike (c.run d) (call c) d := by
  cases c with
  | startCommand command prompt => exact endsLike_startCommand d command prompt
  | finishCommand exitCode => exact endsLike_finishCommand d exitCode
  | changeAlternate enabled => exact endsLike_changeAlternate d enabled
  | handle e => exact endsLike_handle d e
  | insertEmptyLine | clearBlocks | dispose => rfl

end Calls

end Procedure

namespace Desk

section Refusals

variable {d d' : Desk} {left : Option Nat} {reason : Refusal}

theorem certain_applyOutput (d : Desk) (output : Snapshot) : (d.applyOutput output).Certain := by
  unfold applyOutput
  split
  · exact Outcome.certain_done d
  · split
    · exact Outcome.certain_done d
    · rename_i id hactive
      split
      · exact Outcome.certain_done d
      · have hwrite := (lists_of_active hactive).yields_writeOutput output
        split
        · rename_i reason hrefused
          intro reason' d' heq
          cases heq
          exact hwrite.of_error hrefused
        · exact Outcome.certain_done _

theorem certain_startBlock (hactive : d.activeId? = none) (command prompt : Option Text)
    (epoch : Nat) : (d.startBlock command prompt epoch).Certain := by
  have hstart := yields_start (Option.map_eq_none_iff.mp hactive) command prompt
  unfold startBlock
  split
  · rename_i reason hrefused
    intro reason' d' heq
    cases heq
    exact hstart.of_error hrefused
  · exact certain_applyOutput _ _

theorem certain_finishBlock {id : Nat} (hactive : d.activeId? = some id) (exitCode : Int)
    (output : Option Snapshot) : (d.finishBlock exitCode output).Certain := by
  have hclosed := (backstage_closeCurrentScope d).sameFace.activeId?.trans hactive
  unfold finishBlock
  generalize d.closeCurrentScope = c at hclosed
  simp only [hclosed]
  refine Outcome.Certain.andThen ?_ fun w hwritten => ?_
  · cases output with
    | none => exact Outcome.certain_done c
    | some output => exact certain_applyOutput c output
  · have hface : c.SameFace w := by
      cases output with
      | none =>
        cases hwritten
        exact ⟨.refl _, rfl, rfl, rfl⟩
      | some output =>
        replace hwritten : c.applyOutput output = .done w := hwritten
        have hface := (sameFace_applyOutput c output).1
        rwa [hwritten] at hface
    have hconclude := (lists_of_active (hface.activeId?.trans hclosed)).concludes exitCode
    split
    · rename_i reason hrefused
      intro reason' d' heq
      cases heq
      exact hconclude.of_error hrefused
    · exact Outcome.certain_done _

-- Afterwards no block is open.
theorem inactive_of_finishBlock (h : d.recorder.Parked left) (hbusy : d.recorder.state ≠ .idle)
    {exitCode : Int} {output : Option Snapshot} (hdone : d.finishBlock exitCode output = .done d') :
    d'.activeId? = none := by
  have hidle : d'.recorder.state = .idle := by
    obtain ⟨w, -, hclosed⟩ := Outcome.andThen_eq_done.mp hdone
    dsimp only at hclosed
    split at hclosed
    · cases hclosed
    · split at hclosed
      · cases hclosed
      · cases hclosed
        rfl
  have hturned := turned_finishBlock h.rolled exitCode output
  rw [hdone] at hturned
  cases hturned.resolve_left (by simp [Outcome.refusal?]) with
  | kept _ state => exact absurd (state.symm.trans hidle) hbusy
  | engaged _ busy => exact absurd hidle busy
  | rested _ _ active => exact active

theorem certain_changeAlternate (d : Desk) (enabled : Bool) :
    (d.changeAlternate enabled).Certain := by
  unfold changeAlternate
  split
  · exact Outcome.certain_done _
  · split
    · exact Outcome.certain_done _
    · exact certain_applyOutput _ _
  · exact Outcome.certain_done _

theorem certain_handle (h : d.recorder.Parked left) {e : Event}
    (he : d.recorder.state = .idle → d.activeId? ≠ none →
      ∀ command prompt epoch, e ≠ .commandStarted command prompt epoch) : (d.handle e).Certain := by
  have hactive : d.recorder.state ≠ .idle → ∃ id, d.activeId? = some id :=
    fun hbusy => Option.ne_none_iff_exists'.mp (h.engaged hbusy)
  refine Outcome.Certain.restoring ?_ d
  cases e with
  | outputChanged output =>
    simp only [handleEvent]
    split
    · exact certain_applyOutput d output
    · exact Outcome.certain_done d
  | commandStarted command prompt epoch =>
    simp only [handleEvent]
    split
    · rename_i hidle
      refine certain_startBlock ?_ command prompt epoch
      by_contra hopen
      exact he hidle hopen command prompt epoch rfl
    · rename_i hbusy
      obtain ⟨id, hid⟩ := hactive hbusy
      refine (certain_finishBlock hid 0 none).andThen fun d' hdone => ?_
      exact certain_startBlock (inactive_of_finishBlock h hbusy hdone) command prompt epoch
  | commandFinished exitCode output =>
    simp only [handleEvent]
    split
    · exact Outcome.certain_done d
    · rename_i hbusy
      obtain ⟨id, hid⟩ := hactive hbusy
      exact certain_finishBlock hid exitCode (some output)
  | alternateChanged enabled => exact certain_changeAlternate d enabled
  | cleared | terminated | disposed => exact Outcome.certain_done _

theorem startBlock_of_active {b : Block} (h : d.transcript.activeBlock? = some b)
    (command prompt : Option Text) (epoch : Nat) :
    d.startBlock command prompt epoch = .refused (.blockStillOpen b.id) d ∧
      Procedure.startBlock command prompt epoch d = .error (.blockStillOpen b.id) d := by
  refine ⟨by rw [startBlock, start_of_active h], Procedure.bind_error ?_⟩
  have hstart : Procedure.start command prompt d.transcript =
      .error (.blockStillOpen b.id) d.transcript :=
    Procedure.bind_error (Procedure.createBlock_of_active h _ _)
  rw [Procedure.inTranscript, hstart]
  rfl

-- There is no scope to close, no state to leave and no epoch to give up.
theorem Parked.finishCommand_of_inactive (h : d.recorder.Parked left) (hactive : d.activeId? = none)
    (exitCode : Int) : d.finishCommand exitCode = .refused .noActiveBlock d ∧
      Procedure.finishCommand exitCode d = .error .noActiveBlock d := by
  have hidle : d.recorder.state = .idle := by
    by_contra hbusy
    exact h.engaged hbusy hactive
  have hscope : d.recorder.scope = none :=
    h.scope.resolve_left fun hrunning => by cases hidle.symm.trans hrunning
  have hclosed := closeCurrentScope_of_none hscope
  have hrested : (d.modifyRecorder fun r => { r with state := .idle, epoch := none }) = d := by
    rw [modifyRecorder, ← hidle, ← h.epoch hactive]
  constructor
  · simp only [finishCommand, finishBlock, hclosed, hactive, Outcome.andThen, hrested,
      Outcome.restoring]
  · rw [Procedure.finishCommand, Procedure.modify_bind, hclosed, Procedure.get_bind,
      Procedure.finishBlock, Procedure.modify_bind, hclosed, Procedure.get_bind, hactive]
    have hlast : ∀ output, Procedure.lastOutput none output d = .ok () d := fun _ => rfl
    rw [Procedure.bind_ok (hlast _), Procedure.modify_bind, hrested]
    rfl

-- A start is refused while a block is open, a finish while none is.
theorem refused_call (h : d.recorder.Parked left) {c : Call} (hrefused : c.run d = .refused reason d')
    (hreason : reason ≠ .badOffset) : d' = d ∧ Procedure.call c d = .error reason d ∧
      ∀ e, c = .handle e → ∃ command prompt epoch id, e = .commandStarted command prompt epoch ∧
        left = some id ∧ d.activeId? = some id ∧ reason = .blockStillOpen id := by
  have hcertain : ¬(c.run d).Certain := fun hcertain => hreason (hcertain reason d' hrefused)
  cases c with
  | startCommand command prompt =>
    cases hactive : d.transcript.activeBlock? with
    | none =>
      refine absurd ?_ hcertain
      simp only [Call.run, startCommand, hactive]
      exact (certain_startBlock (d := { d with stage :=
        { d.stage with terminal := d.stage.terminal.clearAll } })
        (Option.map_eq_none_iff.mpr hactive) command prompt _).restoring d
    | some b =>
      simp only [Call.run, startCommand, hactive, Outcome.refused.injEq] at hrefused
      obtain ⟨rfl, rfl⟩ := hrefused
      refine ⟨rfl, ?_, fun e he => by cases he⟩
      rw [Procedure.call, Procedure.startCommand, Procedure.get_bind, hactive]
      rfl
  | finishCommand exitCode =>
    cases hactive : d.activeId? with
    | none =>
      obtain ⟨hrun, hprocedure⟩ := Parked.finishCommand_of_inactive h hactive exitCode
      cases hrun.symm.trans hrefused
      exact ⟨rfl, hprocedure, fun e he => by cases he⟩
    | some id =>
      have hclosed := (backstage_closeCurrentScope d).sameFace.activeId?.trans hactive
      exact absurd ((certain_finishBlock hclosed exitCode _).restoring d) hcertain
  | handle e =>
    by_cases hstart : ∃ command prompt epoch, e = .commandStarted command prompt epoch
    · obtain ⟨command, prompt, epoch, rfl⟩ := hstart
      have hidle : d.recorder.state = .idle := by
        by_contra hbusy
        exact hcertain (certain_handle h fun hidle => absurd hidle hbusy)
      have hopen : d.activeId? ≠ none := fun hnone =>
        hcertain (certain_handle h fun _ hopen => absurd hnone hopen)
      obtain ⟨id, hid⟩ := Option.ne_none_iff_exists'.mp hopen
      obtain ⟨b, hactive, rfl⟩ := Option.map_eq_some_iff.mp hid
      obtain ⟨hrun, hprocedure⟩ := startBlock_of_active hactive command prompt epoch
      simp only [Call.run, handle, handleEvent, if_pos hidle, Outcome.andThen, hrun,
        Outcome.restoring, Outcome.refused.injEq] at hrefused
      obtain ⟨rfl, rfl⟩ := hrefused
      refine ⟨rfl, ?_, fun e he => ?_⟩
      · rw [Procedure.call, Procedure.handle, Procedure.get_bind]
        simp only [if_pos hidle]
        exact hprocedure
      · cases he
        exact ⟨command, prompt, epoch, b.id, rfl, h.left hidle _ hid, hid, rfl⟩
    · refine absurd (certain_handle h fun _ _ command prompt epoch he => ?_) hcertain
      exact hstart ⟨command, prompt, epoch, he⟩
  | changeAlternate enabled => exact absurd (certain_changeAlternate d enabled) hcertain
  | insertEmptyLine | clearBlocks | dispose => cases hrefused

-- A refusal for another reason than an offset has changed nothing, neither in a transcript nor in what
-- a recorder has to do with, and of all events only a start is refused: that for the block which the
-- last disposal left open.
theorem unchanged_of_refused (h : Used d left) :
    (∀ (t : Transcript) (o : Operation),
      Procedure.Ends (o.run t) (fun _ => ()) (fun t' => t') (Procedure.operate o t) ∧
      ∀ reason t', Procedure.operate o t = .error reason t' → reason ≠ .badOffset → t' = t) ∧
    ∀ c : Call, Procedure.EndsLike (c.run d) (Procedure.call c) d ∧
      ∀ reason d', c.run d = .refused reason d' → reason ≠ .badOffset →
        d' = d ∧ Procedure.call c d = .error reason d ∧
        ∀ e, c = .handle e → ∃ command prompt epoch id, e = .commandStarted command prompt epoch ∧
          left = some id ∧ d.activeId? = some id ∧ reason = .blockStillOpen id := by
  constructor
  · intro t o
    refine ⟨Procedure.ends_operate t o, fun reason t' hrefused hreason => ?_⟩
    exact (Procedure.spotless_operate o t reason t' hrefused).resolve_left hreason
  · intro c
    refine ⟨Procedure.endsLike_call d c, fun reason d' hrefused hreason => ?_⟩
    exact refused_call h.parked hrefused hreason

-- A command runs.
def occupied : Desk :=
  Step.play { stage := { terminal := .new { columns := 20, rows := 4 } 10 } }
    (.call (.startCommand (some ['l', 's']) none))

-- The view goes away while it does.
def abandoned : Desk := Step.play occupied (.call .dispose)

theorem unchanged_of_refused_restart :
    Used abandoned (some 0) ∧
      Procedure.call (.handle (.commandStarted none none 7)) abandoned =
        .error (.blockStillOpen 0) abandoned := by
  have hstarted : Used occupied _ := .step (.new _) fun hs => by rcases hs with hs | hs <;> cases hs
  have hused : Used abandoned occupied.activeId? := hstarted.disposed (.inl rfl)
  have hleft : occupied.activeId? = some 0 := by decide +kernel
  rw [hleft] at hused
  refine ⟨hused, ?_⟩
  have hrefusal : (Call.run abandoned (.handle (.commandStarted none none 7))).refusal? =
      some (.blockStillOpen 0) := by decide +kernel
  cases hrun : Call.run abandoned (.handle (.commandStarted none none 7)) with
  | done d' =>
    rw [hrun] at hrefusal
    cases hrefusal
  | refused reason d' =>
    rw [hrun] at hrefusal
    obtain rfl : reason = .blockStillOpen 0 := by simpa [Outcome.refusal?] using hrefusal
    exact (((unchanged_of_refused hused).2 _).2 _ d' hrun (by simp)).2.1

end Refusals

end Desk

end ShellTranscript
